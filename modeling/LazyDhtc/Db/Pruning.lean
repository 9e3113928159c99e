-- SUMMARY: When concurrent prunes keep the newest torrents, and that they leave no more than may be saved.
import LazyDhtc.Db.Ingest
import LazyDhtc.Lib.Retention

/-!
# Pruning

A call that has inserted counts the torrents, selects the oldest of them and deletes those,
in three statements. Another call may delete between the count and the selection, and then
the count is too high. What each call has selected is kept track of, and every selected
torrent has as many newer ones outside all selections as may be saved.
-/

namespace Db

open DhtClient Transition Retention

/-! ## Selections -/

/-- The torrents that some call is about to delete. -/
def pending (calls : List Call) : List Torrent := calls.flatMap fun c => c.pc.selected

/-- A selection uses a count that is not above the number of stored torrents, and breaks
    ties as the selections that are to be deleted have. No statement of a prune fails. -/
def PrunesSafely (s : RepositoryState) : RepositoryAction → Prop
  | .call c (.select selected) =>
    (∀ count, c.pc = .selecting count → count ≤ s.db.torrents.length) ∧
      ∀ t ∈ selected, t ∉ pending s.calls → ∀ u ∈ pending s.calls, u ∈ s.db.torrents →
        u ∉ selected → t.discoveredOn ≠ u.discoveredOn
  | .call _ .pruneFails => False
  | _ => True

theorem pending_call (pre post : List Call) (c : Call) :
    pending (pre ++ c :: post) = pending pre ++ (c.pc.selected ++ pending post) := by
  unfold pending
  rw [List.flatMap_append, List.flatMap_cons]

theorem mem_pending_call {pre post : List Call} {c : Call} {t : Torrent} :
    t ∈ pending (pre ++ c :: post) ↔ t ∈ c.pc.selected ∨ t ∈ pending pre ∨ t ∈ pending post := by
  rw [pending_call, List.mem_append, List.mem_append]
  exact or_left_comm

theorem pending_call_subset {pre post : List Call} {c c' : Call}
    (hsub : c'.pc.selected ⊆ c.pc.selected) :
    pending (pre ++ c' :: post) ⊆ pending (pre ++ c :: post) := by
  intro t ht
  rw [mem_pending_call] at ht ⊢
  exact ht.imp_left fun hin => hsub hin

/-- What a statement does to the selection of its call, with the torrents it deletes. -/
theorem CallStep.selected {env : Environment} {db db' : Database} {c c' : Call} {a : CallAction}
    (h : CallStep env db c a db' c') :
    (db'.torrents = db.torrents ∧ db'.nextID = db.nextID ∧ c'.pc.selected ⊆ c.pc.selected) ∨
    (∃ categories, db'.torrents = db.torrents ++ [.ofMetadata db.nextID c.md categories] ∧
      db'.nextID = db.nextID + 1 ∧ c'.pc.selected = []) ∨
    (∃ gone, db'.torrents = deleteByIDs db.torrents gone ∧ db'.nextID = db.nextID ∧
      gone ⊆ c.pc.selected ∧ c'.pc.selected ⊆ c.pc.selected) ∨
    (∃ count selected, a = .select selected ∧ c.pc = .selecting count ∧ db' = db ∧
      Oldest db.torrents (count - env.cfg.maxSavedTorrents.toNat) selected ∧
      c'.pc = .deleting selected) := by
  cases h with
  | @insert categories hpc => exact .inr (.inl ⟨categories, rfl, rfl, rfl⟩)
  | @select count selected hpc hold =>
    exact .inr (.inr (.inr ⟨count, selected, rfl, hpc, rfl, hold, rfl⟩))
  | @deleteAll e selected hb hpc =>
    refine .inr (.inr (.inl ⟨selected, rfl, rfl, ?_, List.nil_subset _⟩))
    rw [hpc]
    exact List.Subset.refl _
  | @deleteOne t selected hb hpc =>
    refine .inr (.inr (.inl ⟨[t], rfl, rfl, ?_, ?_⟩))
    · rw [hpc]
      exact List.cons_subset.2 ⟨List.mem_cons_self, List.nil_subset _⟩
    · rw [hpc]
      exact List.subset_cons_self t selected
  | deleteOneFails hb hpc =>
    refine .inl ⟨rfl, rfl, ?_⟩
    rw [hpc]
    exact List.subset_cons_self _ _
  | _ => exact .inl ⟨rfl, rfl, List.nil_subset _⟩

/-! ## Identity -/

/-- IDs tell the stored torrents apart, and the selected ones from them. -/
structure Identified (s : RepositoryState) : Prop where
  nodup : (s.db.torrents.map Torrent.id).Nodup
  stored : ∀ t ∈ s.db.torrents, t.id < s.db.nextID
  selected : ∀ d ∈ pending s.calls, d.id < s.db.nextID
  same : ∀ d ∈ pending s.calls, ∀ t ∈ s.db.torrents, t.id = d.id → t = d

theorem eq_of_id {torrents : List Torrent} (h : (torrents.map Torrent.id).Nodup) {t u : Torrent}
    (ht : t ∈ torrents) (hu : u ∈ torrents) (hid : t.id = u.id) : t = u :=
  List.inj_on_of_nodup_map h ht hu hid

theorem mem_deleteByIDs {torrents gone : List Torrent}
    (hsame : ∀ d ∈ gone, ∀ t ∈ torrents, t.id = d.id → t = d) {t : Torrent} :
    t ∈ deleteByIDs torrents gone ↔ t ∈ torrents ∧ t ∉ gone := by
  unfold deleteByIDs
  rw [List.mem_filter, decide_eq_true_iff]
  refine and_congr_right fun ht => not_congr ⟨?_, List.mem_map_of_mem⟩
  intro hid
  obtain ⟨d, hd, heq⟩ := List.mem_map.1 hid
  rw [hsame d hd t ht heq.symm]
  exact hd

theorem Identified.step {env : Environment} {s s' : RepositoryState} {a : RepositoryAction}
    (h : Identified s) (hstep : RepositoryStep env s a s') : Identified s' := by
  cases hstep with
  | ingest =>
    have hpending : pending (s.calls ++ [.start ‹Metadata›]) = pending s.calls := by
      simp [pending, Call.start, CallPC.selected]
    exact ⟨h.nodup, h.stored, hpending ▸ h.selected, hpending ▸ h.same⟩
  | configure => exact ⟨h.nodup, h.stored, h.selected, h.same⟩
  | @call pre post c c' a db hcalls hcall =>
    obtain ⟨hnodup, hstored, hselected, hsame⟩ := h
    rw [hcalls] at hselected hsame
    obtain ⟨heq, hnext, hsub⟩ | ⟨categories, heq, hnext, hnil⟩ | ⟨gone, heq, hnext, hgone, hsub⟩ |
      ⟨count, selected, -, hpc, rfl, hold, hpc'⟩ := hcall.selected
    · refine ⟨heq ▸ hnodup, ?_, ?_, ?_⟩
      · rw [heq, hnext]
        exact hstored
      · rw [hnext]
        exact fun d hd => hselected d (pending_call_subset hsub hd)
      · rw [heq]
        exact fun d hd => hsame d (pending_call_subset hsub hd)
    · have hsub : c'.pc.selected ⊆ c.pc.selected := hnil ▸ List.nil_subset _
      refine ⟨?_, ?_, ?_, ?_⟩
      · rw [heq, List.map_append]
        refine List.Nodup.append hnodup (List.nodup_singleton _) ?_
        intro id hin hnew
        obtain ⟨t, ht, rfl⟩ := List.mem_map.1 hin
        exact (hstored t ht).ne (List.mem_singleton.1 hnew)
      · rw [heq, hnext]
        intro t ht
        obtain hin | hnew := List.mem_append.1 ht
        · exact Nat.lt_succ_of_lt (hstored t hin)
        · rw [List.mem_singleton.1 hnew]
          exact Nat.lt_succ_self _
      · rw [hnext]
        exact fun d hd => Nat.lt_succ_of_lt (hselected d (pending_call_subset hsub hd))
      · rw [heq]
        intro d hd t ht hid
        obtain hin | hnew := List.mem_append.1 ht
        · exact hsame d (pending_call_subset hsub hd) t hin hid
        · rw [List.mem_singleton.1 hnew] at hid
          exact absurd hid.symm (hselected d (pending_call_subset hsub hd)).ne
    · refine ⟨?_, ?_, ?_, ?_⟩
      · rw [heq]
        exact hnodup.sublist (List.filter_sublist.map _)
      · rw [heq, hnext]
        exact fun t ht => hstored t (List.mem_of_mem_filter ht)
      · rw [hnext]
        exact fun d hd => hselected d (pending_call_subset hsub hd)
      · rw [heq]
        exact fun d hd t ht => hsame d (pending_call_subset hsub hd) t (List.mem_of_mem_filter ht)
    · have hboth : ∀ d ∈ pending (pre ++ c' :: post), d ∈ pending (pre ++ c :: post) ∨
          d ∈ s.db.torrents := by
        intro d hd
        rw [mem_pending_call, hpc'] at hd
        obtain hsel | hothers := hd
        · exact .inr (hold.subset hsel)
        · exact .inl (mem_pending_call.2 (.inr hothers))
      refine ⟨hnodup, hstored, ?_, ?_⟩
      · intro d hd
        exact (hboth d hd).elim (hselected d) (hstored d)
      · intro d hd t ht hid
        obtain hpend | hin := hboth d hd
        · exact hsame d hpend t ht hid
        · exact eq_of_id hnodup ht hin hid

theorem identified {env : Environment} {start : List Torrent → Prop} {s : RepositoryState}
    (h : (repositorySystem env start).Reachable s) : Identified s := by
  refine System.invariant (P := Identified) ?_ (fun s a s' _ hid hstep => hid.step hstep) h
  intro s ⟨hnodup, hstored, _, hcalls⟩
  have hnone : ∀ d, d ∉ pending s.calls := by
    rw [hcalls]
    exact fun d => List.not_mem_nil
  exact ⟨hnodup, hstored, fun d hd => (hnone d hd).elim, fun d hd => (hnone d hd).elim⟩

/-! ## Shelter -/

def Torrent.rank (t : Torrent) : Int := t.discoveredOn.toInt

/-- Every selected torrent has `k` torrents outside all selections that are not older. -/
def Protected (k : Nat) (s : RepositoryState) : Prop :=
  Sheltered Torrent.rank k s.db.torrents.toFinset (pending s.calls).toFinset

/-- A count is above the number of torrents that may be saved. -/
def CountsMany (env : Environment) (c : Call) : Prop :=
  ∀ count, c.pc = .selecting count → 0 < env.cfg.maxSavedTorrents ∧
    env.cfg.maxSavedTorrents < (count : Int)

theorem CallStep.countsMany {env : Environment} {db db' : Database} {c c' : Call} {a : CallAction}
    (h : CallStep env db c a db' c') : CountsMany env c' := by
  intro count hpc'
  cases h with
  | countMany _ hpos hmany =>
    cases hpc'
    exact ⟨hpos, hmany⟩
  | _ => cases hpc'

theorem calls_countMany {env : Environment} {start : List Torrent → Prop} {s : RepositoryState}
    (h : (repositorySystem env start).Reachable s) : ∀ c ∈ s.calls, CountsMany env c := by
  refine System.invariant (P := fun s => ∀ c ∈ s.calls, CountsMany env c) ?_ ?_ h
  · intro s ⟨_, _, _, hcalls⟩ c hc
    rw [hcalls] at hc
    cases hc
  · intro s a s' _ hcount hstep
    refine RepositoryStep.forall_calls hstep hcount (fun md count hpc => ?_) ?_
    · cases hpc
    · intro c b db c' _ _ hcall
      exact hcall.countsMany

theorem Oldest.lowestOf {torrents selected : List Torrent} {limit : Nat}
    (h : Oldest torrents limit selected) :
    LowestOf Torrent.rank torrents.toFinset selected.toFinset := by
  refine ⟨?_, ?_⟩
  · intro t ht
    exact List.mem_toFinset.2 (h.subset (List.mem_toFinset.1 ht))
  · intro t ht u hu hnot
    rw [List.mem_toFinset] at ht hu hnot
    exact Int64.le_iff_toInt_le.1 (h.oldest t ht u hu hnot)

theorem nodup_of_ids {torrents : List Torrent} (h : (torrents.map Torrent.id).Nodup) :
    torrents.Nodup := h.of_map

/-- The `SELECT` of a call keeps the shelter if its count is not too high and breaks no tie
    between what is about to be deleted. -/
theorem Protected.select {env : Environment} {s : RepositoryState} {pre post : List Call}
    {c c' : Call} {k count : Nat} {selected : List Torrent}
    (hk : env.cfg.maxSavedTorrents = k) (h : Protected k s) (hid : Identified s)
    (hmany : CountsMany env c) (hcalls : s.calls = pre ++ c :: post)
    (hpc : c.pc = .selecting count) (hpc' : c'.pc = .deleting selected)
    (hold : Oldest s.db.torrents (count - env.cfg.maxSavedTorrents.toNat) selected)
    (hok : PrunesSafely s (.call c (.select selected))) :
    Protected k ⟨s.db, pre ++ c' :: post⟩ := by
  obtain ⟨hcount, hties⟩ := hok
  have hnone : c.pc.selected = [] := by
    rw [hpc]
    rfl
  have hsome : c'.pc.selected = selected := by
    rw [hpc']
    rfl
  have hdoomed : (pending (pre ++ c' :: post)).toFinset =
      (pending s.calls).toFinset ∪ selected.toFinset := by
    ext t
    rw [Finset.mem_union, List.mem_toFinset, List.mem_toFinset, List.mem_toFinset, hcalls,
      mem_pending_call, mem_pending_call, hnone, hsome]
    simp only [List.not_mem_nil, false_or]
    exact or_comm
  unfold Protected
  rw [hdoomed]
  refine Sheltered.select h hold.lowestOf ?_ ?_
  · rw [List.toFinset_card_of_nodup hold.nodup,
      List.toFinset_card_of_nodup (nodup_of_ids hid.nodup), hold.length, hk, Int.toNat_natCast]
    have hle := hcount count hpc
    have hlt := (hmany count hpc).2
    rw [hk] at hlt
    omega
  · intro t ht hfree u hu hstored hnot
    rw [List.mem_toFinset] at ht hfree hu hstored hnot
    exact fun heq => hties t ht hfree u hu hstored hnot (Int64.toInt_inj.1 heq)

/-- The `DELETE` of a call takes only torrents that were about to be deleted. -/
theorem Protected.delete {s : RepositoryState} {db : Database} {calls : List Call} {k : Nat}
    {gone : List Torrent} (h : Protected k s) (hid : Identified s)
    (heq : db.torrents = deleteByIDs s.db.torrents gone) (hgone : gone ⊆ pending s.calls)
    (hsub : (pending calls).toFinset ⊆ (pending s.calls).toFinset) : Protected k ⟨db, calls⟩ := by
  have hmem : ∀ t, t ∈ db.torrents ↔ t ∈ s.db.torrents ∧ t ∉ gone := by
    intro t
    rw [heq]
    exact mem_deleteByIDs fun d hd => hid.same d (hgone hd)
  refine h.mono ?_ ?_
  · intro t ht
    obtain ⟨hin, hfree⟩ := Finset.mem_sdiff.1 ht
    have hnot : t ∉ gone := fun hd => hfree (List.mem_toFinset.2 (hgone hd))
    exact Finset.mem_sdiff.2 ⟨List.mem_toFinset.2 ((hmem t).2 ⟨List.mem_toFinset.1 hin, hnot⟩),
      fun hd => hfree (hsub hd)⟩
  · intro t ht
    obtain ⟨hin, hdoomed⟩ := Finset.mem_inter.1 ht
    exact Finset.mem_inter.2
      ⟨List.mem_toFinset.2 ((hmem t).1 (List.mem_toFinset.1 hin)).1, hsub hdoomed⟩

/-- A statement keeps the shelter. -/
theorem Protected.call {env : Environment} {s : RepositoryState} {pre post : List Call}
    {c c' : Call} {a : CallAction} {db : Database} {k : Nat}
    (hk : env.cfg.maxSavedTorrents = k) (h : Protected k s) (hid : Identified s)
    (hmany : CountsMany env c) (hcalls : s.calls = pre ++ c :: post)
    (hcall : CallStep env s.db c a db c') (hok : PrunesSafely s (.call c a)) :
    Protected k ⟨db, pre ++ c' :: post⟩ := by
  have hpend : c'.pc.selected ⊆ c.pc.selected →
      (pending (pre ++ c' :: post)).toFinset ⊆ (pending s.calls).toFinset := by
    intro hsub t ht
    rw [List.mem_toFinset] at ht ⊢
    rw [hcalls]
    exact pending_call_subset hsub ht
  obtain ⟨heq, -, hsub⟩ | ⟨categories, heq, -, hnil⟩ | ⟨gone, heq, -, hgone, hsub⟩ |
    ⟨count, selected, rfl, hpc, rfl, hold, hpc'⟩ := hcall.selected
  · refine h.mono ?_ ?_
    · rw [heq]
      exact Finset.sdiff_subset_sdiff subset_rfl (hpend hsub)
    · rw [heq]
      exact Finset.inter_subset_inter subset_rfl (hpend hsub)
  · have hsub := hpend (hnil ▸ List.nil_subset _)
    refine h.mono ?_ ?_
    · rw [heq, List.toFinset_append]
      exact Finset.sdiff_subset_sdiff Finset.subset_union_left hsub
    · intro t ht
      obtain ⟨hin, hdoomed⟩ := Finset.mem_inter.1 ht
      have hd := hsub hdoomed
      rw [heq, List.mem_toFinset, List.mem_append] at hin
      obtain hold | hnew := hin
      · exact Finset.mem_inter.2 ⟨List.mem_toFinset.2 hold, hd⟩
      · have hlt := hid.selected t (List.mem_toFinset.1 hd)
        rw [List.mem_singleton.1 hnew] at hlt
        exact absurd hlt (Nat.lt_irrefl _)
  · refine h.delete hid heq (fun d hd => ?_) (hpend hsub)
    rw [hcalls, mem_pending_call]
    exact .inl (hgone hd)
  · exact h.select hk hid hmany hcalls hpc hpc' hold hok

theorem Protected.step {env : Environment} {s s' : RepositoryState} {a : RepositoryAction}
    {k : Nat} (hk : env.cfg.maxSavedTorrents = k) (h : Protected k s) (hid : Identified s)
    (hmany : ∀ c ∈ s.calls, CountsMany env c) (hstep : RepositoryStep env s a s')
    (hok : PrunesSafely s a) : Protected k s' := by
  cases hstep with
  | ingest =>
    have hpending : pending (s.calls ++ [.start ‹Metadata›]) = pending s.calls := by
      simp [pending, Call.start, CallPC.selected]
    unfold Protected
    rw [hpending]
    exact h
  | configure => exact h
  | call hcalls hcall =>
    refine h.call hk hid (hmany _ ?_) hcalls hcall hok
    rw [hcalls]
    exact List.mem_append_right _ List.mem_cons_self

theorem reachable_protected {env : Environment} {start : List Torrent → Prop}
    {s : RepositoryState} {k : Nat} (hk : env.cfg.maxSavedTorrents = k)
    (h : ((repositorySystem env start).restrict PrunesSafely).Reachable s) : Protected k s := by
  refine System.invariant (P := Protected k) ?_ ?_ h
  · intro s ⟨_, _, _, hcalls⟩
    unfold Protected
    rw [hcalls]
    exact Sheltered.empty
  · intro s a s' hreach hs ⟨hstep, hok⟩
    exact hs.step hk (identified hreach.of_restrict) (calls_countMany hreach.of_restrict) hstep hok

/-- What is deleted leaves `k` torrents that are not older. -/
theorem Protected.deleted {env : Environment} {s s' : RepositoryState} {a : RepositoryAction}
    {k : Nat} (h : Protected k s) (hid : Identified s) (hstep : RepositoryStep env s a s')
    {t : Torrent} (ht : t ∈ s.db.torrents) (hgone : t ∉ s'.db.torrents) :
    k ≤ (s'.db.torrents.filter fun u => t.discoveredOn ≤ u.discoveredOn).length := by
  cases hstep with
  | ingest | configure => exact absurd ht hgone
  | @call pre post c c' a db hcalls hcall =>
    obtain ⟨heq, -⟩ | ⟨categories, heq, -⟩ | ⟨gone, heq, -, hsub, -⟩ | ⟨-, -, -, -, rfl, -⟩ :=
      hcall.selected
    · exact absurd (heq ▸ ht) hgone
    · exact absurd (heq ▸ List.mem_append_left _ ht) hgone
    · have hpending : ∀ d ∈ gone, d ∈ pending s.calls := by
        intro d hd
        rw [hcalls, mem_pending_call]
        exact .inl (hsub hd)
      have hmem : ∀ u, u ∈ db.torrents ↔ u ∈ s.db.torrents ∧ u ∉ gone := by
        intro u
        rw [heq]
        exact mem_deleteByIDs fun d hd => hid.same d (hpending d hd)
      have htgone : t ∈ gone := by
        by_contra hnot
        exact hgone ((hmem t).2 ⟨ht, hnot⟩)
      have hdoomed : gone.toFinset ⊆ (pending s.calls).toFinset := by
        intro d hd
        exact List.mem_toFinset.2 (hpending d (List.mem_toFinset.1 hd))
      have hleft := Sheltered.removed h hdoomed (List.mem_toFinset.2 ht)
        (List.mem_toFinset.2 htgone)
      refine hleft.trans (le_trans (Finset.card_le_card ?_) (List.toFinset_card_le _))
      intro u hu
      obtain ⟨hrest, hrank⟩ := Finset.mem_filter.1 hu
      obtain ⟨hin, hnot⟩ := Finset.mem_sdiff.1 hrest
      rw [List.mem_toFinset] at hin hnot
      rw [List.mem_toFinset, List.mem_filter, decide_eq_true_iff]
      exact ⟨(hmem u).2 ⟨hin, hnot⟩, Int64.le_iff_toInt_le.2 hrank⟩
    · exact absurd ht hgone

theorem Protected.keeps_length {env : Environment} {s s' : RepositoryState} {a : RepositoryAction}
    {k : Nat} (h : Protected k s) (hid : Identified s) (hstep : RepositoryStep env s a s')
    (hk : k ≤ s.db.torrents.length) : k ≤ s'.db.torrents.length := by
  by_cases hsub : s.db.torrents ⊆ s'.db.torrents
  · exact hk.trans ((nodup_of_ids hid.nodup).subperm hsub).length_le
  · obtain ⟨t, ht, hgone⟩ : ∃ t ∈ s.db.torrents, t ∉ s'.db.torrents := by
      by_contra hnone
      exact hsub fun t ht => not_not.1 fun hgone => hnone ⟨t, ht, hgone⟩
    exact (h.deleted hid hstep ht hgone).trans (List.length_filter_le _ _)

/-! ## Quiescence -/

/-- A call that brings the number of torrents down to `k` if it runs on alone. -/
def Call.Settles (k : Nat) (torrents : List Torrent) (c : Call) : Prop :=
  match c.pc with
  | .counting => True
  | .selecting count => torrents.length ≤ count
  | .deleting selected => (deleteByIDs torrents selected).length ≤ k
  | _ => False

/-- No more than `k` torrents are stored, or some call is about to settle that. -/
def Settled (k : Nat) (s : RepositoryState) : Prop :=
  s.db.torrents.length ≤ k ∨ ∃ c ∈ s.calls, c.Settles k s.db.torrents

theorem Call.Settles.sublist {k : Nat} {torrents torrents' : List Torrent} {c : Call}
    (h : c.Settles k torrents) (hsub : torrents'.Sublist torrents) : c.Settles k torrents' := by
  unfold Settles at h ⊢
  split at h
  · trivial
  · exact hsub.length_le.trans h
  · exact (hsub.filter _).length_le.trans h
  · exact h

theorem length_deleteByIDs {torrents selected : List Torrent}
    (hnodup : (torrents.map Torrent.id).Nodup) (hsel : selected.Nodup) (hsub : selected ⊆ torrents) :
    (deleteByIDs torrents selected).length = torrents.length - selected.length := by
  have hmem : ∀ {t}, t ∈ deleteByIDs torrents selected ↔ t ∈ torrents ∧ t ∉ selected :=
    mem_deleteByIDs fun d hd t ht hid => eq_of_id hnodup ht (hsub hd) hid
  have htorrents := nodup_of_ids hnodup
  have hset : (deleteByIDs torrents selected).toFinset = torrents.toFinset \ selected.toFinset := by
    ext t
    rw [Finset.mem_sdiff, List.mem_toFinset, List.mem_toFinset, List.mem_toFinset, hmem]
  have hleft : (deleteByIDs torrents selected).Nodup := htorrents.sublist List.filter_sublist
  have hcard := congrArg Finset.card hset
  rwa [Finset.card_sdiff_of_subset fun t ht => List.mem_toFinset.2 (hsub (List.mem_toFinset.1 ht)),
    List.toFinset_card_of_nodup hleft, List.toFinset_card_of_nodup htorrents,
    List.toFinset_card_of_nodup hsel] at hcard

theorem deleteByIDs_nil (torrents : List Torrent) : deleteByIDs torrents [] = torrents := by
  simp [deleteByIDs]

theorem deleteByIDs_cons (torrents : List Torrent) (t : Torrent) (selected : List Torrent) :
    deleteByIDs (deleteByIDs torrents [t]) selected = deleteByIDs torrents (t :: selected) := by
  unfold deleteByIDs
  rw [List.filter_filter]
  refine List.filter_congr fun u _ => ?_
  rw [Bool.eq_iff_iff]
  simp only [Bool.and_eq_true, decide_eq_true_iff, List.map_cons, List.mem_cons, List.map_nil,
    List.not_mem_nil, or_false, not_or]
  exact and_comm

/-- A call that settles the number of torrents still does after its next statement, or has
    settled it, unless the statement fails. -/
theorem CallStep.settles {env : Environment} {db db' : Database} {c c' : Call} {a : CallAction}
    {k : Nat} (h : CallStep env db c a db' c') (hk : env.cfg.maxSavedTorrents = k) (hpos : 0 < k)
    (hnodup : (db.torrents.map Torrent.id).Nodup) (ha : a ≠ .pruneFails)
    (hc : c.Settles k db.torrents) :
    db'.torrents.length ≤ k ∨ c'.Settles k db'.torrents := by
  unfold Call.Settles at hc
  cases h with
  | countFew hpc hfew =>
    refine .inl ?_
    rw [hk] at hfew
    obtain hzero | hfew := hfew
    · exact absurd hzero (by omega)
    · exact Int.ofNat_le.1 hfew
  | countMany => exact .inr (Nat.le_refl _)
  | @select count selected hpc hold =>
    rw [hpc] at hc
    refine .inr ?_
    unfold Call.Settles
    simp only
    rw [length_deleteByIDs hnodup hold.nodup hold.subset, hold.length, hk, Int.toNat_natCast]
    simp only at hc
    omega
  | deleteAll hb hpc =>
    rw [hpc] at hc
    exact .inl hc
  | deleteOne hb hpc =>
    rw [hpc] at hc
    refine .inr ?_
    unfold Call.Settles
    simp only
    rw [deleteByIDs_cons]
    exact hc
  | deleteDone hb hpc =>
    rw [hpc] at hc
    simp only [deleteByIDs_nil] at hc
    exact .inl hc
  | insert => exact .inr trivial
  | countFails | selectFails | deleteAllFails | deleteOneFails => exact absurd rfl ha
  | reject hpc | pass hpc | refuse hpc | checkWatches hpc | broadcast hpc =>
    rw [hpc] at hc
    exact hc.elim

/-- Only an insert adds a torrent, and then its call is about to count. -/
theorem CallStep.grows {env : Environment} {db db' : Database} {c c' : Call} {a : CallAction}
    (h : CallStep env db c a db' c') :
    db'.torrents.Sublist db.torrents ∨ c'.pc = .counting := by
  obtain ⟨heq, -⟩ | ⟨categories, -, -, -, -, -, rfl⟩ | ⟨gone, rest, -, -, heq, -⟩ := h.torrents
  · exact .inl (heq ▸ List.Sublist.refl _)
  · exact .inr rfl
  · exact .inl (heq ▸ List.filter_sublist)

theorem Settled.step {env : Environment} {s s' : RepositoryState} {a : RepositoryAction}
    {k : Nat} (h : Settled k s) (hk : env.cfg.maxSavedTorrents = k) (hpos : 0 < k)
    (hid : Identified s) (hstep : RepositoryStep env s a s') (hok : PrunesSafely s a) :
    Settled k s' := by
  cases hstep with
  | ingest => exact h.imp_right fun ⟨c, hc, hsettles⟩ => ⟨c, List.mem_append_left _ hc, hsettles⟩
  | configure => exact h
  | @call pre post c c' a db hcalls hcall =>
    have ha : a ≠ .pruneFails := by
      rintro rfl
      exact hok
    have hin : c' ∈ pre ++ c' :: post := List.mem_append_right _ List.mem_cons_self
    obtain hsub | hpc' := hcall.grows
    · obtain hfew | ⟨d, hd, hsettles⟩ := h
      · exact .inl (hsub.length_le.trans hfew)
      · rw [hcalls] at hd
        obtain hpre | hcons := List.mem_append.1 hd
        · exact .inr ⟨d, List.mem_append_left _ hpre, hsettles.sublist hsub⟩
        · obtain rfl | hpost := List.mem_cons.1 hcons
          · exact (hcall.settles hk hpos hid.nodup ha hsettles).imp_right fun hc' => ⟨c', hin, hc'⟩
          · exact .inr ⟨d, List.mem_append_right _ (List.mem_cons_of_mem _ hpost),
              hsettles.sublist hsub⟩
    · refine .inr ⟨c', hin, ?_⟩
      unfold Call.Settles
      rw [hpc']
      trivial

theorem reachable_settled {env : Environment} {s : RepositoryState} {k : Nat}
    (hk : env.cfg.maxSavedTorrents = k) (hpos : 0 < k)
    (h : ((repositorySystem env fun torrents => torrents.length ≤ k).restrict
      PrunesSafely).Reachable s) : Settled k s := by
  refine System.invariant (P := Settled k) ?_ ?_ h
  · intro s ⟨_, _, hfew, _⟩
    exact .inl hfew
  · intro s a s' hreach hs ⟨hstep, hok⟩
    exact hs.step hk hpos (identified hreach.of_restrict) hstep hok

theorem Settled.quiescent {s : RepositoryState} {k : Nat} (h : Settled k s)
    (hdone : ∀ c ∈ s.calls, c.inserts = false) : s.db.torrents.length ≤ k := by
  obtain hfew | ⟨c, hc, hsettles⟩ := h
  · exact hfew
  · have hpc := hdone c hc
    unfold Call.Settles at hsettles
    unfold Call.inserts at hpc
    cases hcases : c.pc with
    | counting | selecting | deleting =>
      rw [hcases] at hpc
      cases hpc
    | filtering | inserting | checkingWatches | broadcasting | returned =>
      rw [hcases] at hsettles
      exact hsettles.elim

/-! ## Prunes keep the newest torrents -/

/-- With a bound of `k`, prunes that select by current counts leave `k` torrents that are
    not older than any they delete, never fewer than `k` once there have been that many,
    and no more than `k` when no insert is in progress. -/
theorem prune_keeps_newest {env : Environment} {s : RepositoryState} {k : Nat}
    (hk : env.cfg.maxSavedTorrents = k) (hpos : 0 < k)
    (h : ((repositorySystem env fun torrents => torrents.length ≤ k).restrict
      PrunesSafely).Reachable s) :
    (∀ a s', RepositoryStep env s a s' → ∀ t ∈ s.db.torrents, t ∉ s'.db.torrents →
      k ≤ (s'.db.torrents.filter fun u => t.discoveredOn ≤ u.discoveredOn).length) ∧
    (∀ s', ((repositorySystem env fun torrents => torrents.length ≤ k).restrict
      PrunesSafely).Steps s s' → k ≤ s.db.torrents.length → k ≤ s'.db.torrents.length) ∧
    ((∀ c ∈ s.calls, c.inserts = false) → s.db.torrents.length ≤ k) := by
  let sys := (repositorySystem env fun torrents => torrents.length ≤ k).restrict PrunesSafely
  refine ⟨?_, ?_, (reachable_settled hk hpos h).quiescent⟩
  · intro a s' hstep t ht hgone
    exact (reachable_protected hk h).deleted (identified h.of_restrict) hstep ht hgone
  · intro s' hsteps hlen
    have hboth : sys.Reachable s' ∧ k ≤ s'.db.torrents.length := by
      refine System.Steps.preserves (P := fun s => sys.Reachable s ∧ k ≤ s.db.torrents.length)
        ?_ hsteps ⟨h, hlen⟩
      intro u a u' ⟨hu, hulen⟩ hstep
      exact ⟨hu.step hstep, (reachable_protected hk hu).keeps_length (identified hu.of_restrict)
        hstep.1 hulen⟩
    exact hboth.2

/-! ## Two prunes at once -/

/-- The torrent of the `n`-th second. -/
def torrentAt (n : Nat) : Metadata := { sampleMetadata with infoHash := [.ofNat n], discoveredOn := .ofNat n }

/-- The row of that torrent, with the same number for an ID. -/
def rowAt (n : Nat) : Torrent := .ofMetadata n (torrentAt n) [ascii "Audio"]

/-- A repository of GORM that may save one torrent and has one. -/
def oneTorrent : RepositoryState := ⟨⟨[rowAt 1], 2, [], []⟩, []⟩

def keepOne : Environment := ⟨⟨false, false, 1⟩, .gorm sqlite, fun _ => none, true⟩

theorem init_oneTorrent :
    (repositorySystem keepOne fun torrents => torrents.length ≤ 1).init oneTorrent := by
  refine ⟨List.nodup_singleton _, ?_, Nat.le_refl 1, rfl⟩
  intro t ht
  rw [List.mem_singleton.1 ht]
  exact Nat.lt_succ_self 1

theorem categorize_torrentAt (n : Nat) : [ascii "Audio"].Perm (categorize (torrentAt n)) := by
  have heq : categorize (torrentAt n) = categorize sampleMetadata := rfl
  rw [heq]
  decide +kernel

theorem oldest_of_take {torrents : List Torrent} {limit n : Nat} (hnodup : torrents.Nodup)
    (hsorted : torrents.Pairwise fun t u => t.discoveredOn ≤ u.discoveredOn)
    (hn : n = min limit torrents.length) : Oldest torrents limit (torrents.take n) := by
  have hsplit : (torrents.take n ++ torrents.drop n).Pairwise
      fun t u => t.discoveredOn ≤ u.discoveredOn := by
    rw [List.take_append_drop]
    exact hsorted
  refine ⟨List.take_subset n torrents, hnodup.sublist (List.take_sublist n torrents), ?_,
    hsorted.sublist (List.take_sublist n torrents), ?_⟩
  · rw [List.length_take, hn, min_assoc, min_self]
  · intro t ht u hu hnot
    rw [← List.take_append_drop n torrents] at hu
    exact (List.pairwise_append.1 hsplit).2.2 t ht u ((List.mem_append.1 hu).resolve_left hnot)

/-- The second torrent is stored, and the first one about to be deleted. -/
def aboutToDelete : RepositoryState :=
  ⟨⟨[rowAt 1, rowAt 2], 3, [], []⟩, [⟨torrentAt 2, .deleting [rowAt 1], false, [], false⟩]⟩

theorem prune_keeps_newest_deleting :
    (∀ a s', RepositoryStep keepOne aboutToDelete a s' → ∀ t ∈ aboutToDelete.db.torrents,
      t ∉ s'.db.torrents →
        1 ≤ (s'.db.torrents.filter fun u => t.discoveredOn ≤ u.discoveredOn).length) ∧
    (∀ s', ((repositorySystem keepOne fun torrents => torrents.length ≤ 1).restrict
      PrunesSafely).Steps aboutToDelete s' → 1 ≤ aboutToDelete.db.torrents.length →
        1 ≤ s'.db.torrents.length) ∧
    ((∀ c ∈ aboutToDelete.calls, c.inserts = false) → aboutToDelete.db.torrents.length ≤ 1) := by
  let sys := (repositorySystem keepOne fun torrents => torrents.length ≤ 1).restrict PrunesSafely
  have hinit : sys.Reachable oneTorrent := .init init_oneTorrent
  have hcall := hinit.step ⟨@RepositoryStep.ingest keepOne _ (torrentAt 2), trivial⟩
  have hpassed := hcall.step ⟨RepositoryStep.last (.pass rfl rfl), trivial⟩
  have hinserted := hpassed.step
    ⟨RepositoryStep.last (.insert rfl (by decide +kernel) (categorize_torrentAt 2)), trivial⟩
  have hcounted := hinserted.step
    ⟨RepositoryStep.last (.countMany rfl Int.one_pos (by decide +kernel)), trivial⟩
  have hold : Oldest [rowAt 1, rowAt 2] 1 [rowAt 1] :=
    @oldest_of_take [rowAt 1, rowAt 2] 1 1 (by decide +kernel) (by decide +kernel) rfl
  have hselected : sys.Reachable aboutToDelete := by
    refine hcounted.step ⟨RepositoryStep.last (.select rfl hold), ?_, ?_⟩
    · intro count hcount
      cases hcount
      exact Nat.le_refl _
    · intro t _ _ u hu
      cases hu
  exact prune_keeps_newest rfl Nat.one_pos hselected

/-- The calls for the second and the third torrent. -/
def callAt (n : Nat) (pc : CallPC) : Call := ⟨torrentAt n, pc, false, [], false⟩

def twoCalls (torrents : List Torrent) (pc pc' : CallPC) : RepositoryState :=
  ⟨⟨torrents, 4, [], []⟩, [callAt 2 pc, callAt 3 pc']⟩

theorem twoCalls_first {torrents torrents' : List Torrent} {pc pc₁ pc' : CallPC} {a : CallAction}
    (h : CallStep keepOne ⟨torrents, 4, [], []⟩ (callAt 2 pc) a ⟨torrents', 4, [], []⟩
      (callAt 2 pc₁)) :
    RepositoryStep keepOne (twoCalls torrents pc pc') (.call (callAt 2 pc) a)
      (twoCalls torrents' pc₁ pc') :=
  @RepositoryStep.call keepOne (twoCalls torrents pc pc') [] _ _ _ _ _ rfl h

theorem twoCalls_second {torrents torrents' : List Torrent} {pc pc' pc₁ : CallPC} {a : CallAction}
    (h : CallStep keepOne ⟨torrents, 4, [], []⟩ (callAt 3 pc') a ⟨torrents', 4, [], []⟩
      (callAt 3 pc₁)) :
    RepositoryStep keepOne (twoCalls torrents pc pc') (.call (callAt 3 pc') a)
      (twoCalls torrents' pc pc₁) :=
  @RepositoryStep.call keepOne (twoCalls torrents pc pc') [callAt 2 pc] [] _ _ _ _ rfl h

/-- Both torrents are stored, and both calls are about to count. -/
theorem twoCalls_counting :
    (repositorySystem keepOne fun torrents => torrents.length ≤ 1).Reachable
      (twoCalls [rowAt 1, rowAt 2, rowAt 3] .counting .counting) := by
  have hfirst := (System.Reachable.init init_oneTorrent).step
    (@RepositoryStep.ingest keepOne _ (torrentAt 2))
  have hpassed := hfirst.step (RepositoryStep.last (.pass rfl rfl))
  have hinserted := hpassed.step
    (RepositoryStep.last (.insert rfl (by decide +kernel) (categorize_torrentAt 2)))
  have hsecond := hinserted.step (@RepositoryStep.ingest keepOne _ (torrentAt 3))
  have hpassed' := hsecond.step (RepositoryStep.last (.pass rfl rfl))
  exact hpassed'.step
    (RepositoryStep.last (.insert rfl (by decide +kernel) (categorize_torrentAt 3)))

/-- Two calls count three torrents, and each deletes two: nothing is left. -/
theorem prunes_delete_all : ∃ s s',
    (repositorySystem keepOne fun torrents => torrents.length ≤ 1).Reachable s ∧
      (repositorySystem keepOne fun torrents => torrents.length ≤ 1).Steps s s' ∧
      s.db.torrents = [rowAt 3] ∧ s'.db.torrents = [] := by
  have hmany : (1 : Int) < (3 : Nat) := by decide
  have hcounted := twoCalls_counting.step (twoCalls_first (.countMany rfl Int.one_pos hmany))
  have hcounted' := hcounted.step (twoCalls_second (.countMany rfl Int.one_pos hmany))
  have hold : Oldest [rowAt 1, rowAt 2, rowAt 3] 2 [rowAt 1, rowAt 2] :=
    @oldest_of_take [rowAt 1, rowAt 2, rowAt 3] 2 2 (by decide +kernel) (by decide +kernel) rfl
  have hselected := hcounted'.step (twoCalls_first (.select rfl hold))
  have hrest : deleteByIDs [rowAt 1, rowAt 2, rowAt 3] [rowAt 1, rowAt 2] = [rowAt 3] := by
    decide +kernel
  have hdelete : CallStep keepOne ⟨[rowAt 1, rowAt 2, rowAt 3], 4, [], []⟩
      (callAt 2 (.deleting [rowAt 1, rowAt 2])) .delete ⟨[rowAt 3], 4, [], []⟩
      (callAt 2 .checkingWatches) := by
    rw [← hrest]
    exact .deleteAll rfl rfl
  have hdeleted := hselected.step (twoCalls_first hdelete)
  have hold' : Oldest [rowAt 3] 2 [rowAt 3] :=
    @oldest_of_take [rowAt 3] 2 1 (List.nodup_singleton _) (List.pairwise_singleton _ _) rfl
  have hnone : deleteByIDs [rowAt 3] [rowAt 3] = [] := by decide +kernel
  have hdelete' : CallStep keepOne ⟨[rowAt 3], 4, [], []⟩ (callAt 3 (.deleting [rowAt 3])) .delete
      ⟨[], 4, [], []⟩ (callAt 3 .checkingWatches) := by
    rw [← hnone]
    exact .deleteAll rfl rfl
  have hsteps : (repositorySystem keepOne fun torrents => torrents.length ≤ 1).Steps
      (twoCalls [rowAt 3] .checkingWatches (.selecting 3))
      (twoCalls [] .checkingWatches .checkingWatches) :=
    (System.Steps.single (twoCalls_second (.select rfl hold'))).tail (twoCalls_second hdelete')
  exact ⟨_, _, hdeleted, hsteps, rfl, rfl⟩

end Db
