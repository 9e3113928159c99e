-- SUMMARY: What the info-hash cache promises about expiry over every sequence of calls, and the refresh of a full map that breaks it.
import LazyDhtc.Cache.InfoHashCache
import LazyDhtc.Lib.Transition

/-!
# Expiry

Every time in the map belongs to an info hash in the set, as long as
`InfoHashCacheExpireAfter` finds room: when the map is full, its sweep and its choice of
a victim do not spare the info hash that it is about to give a time.
-/

namespace Cache

open Transition

/-! ## The calls -/

/-- A call that changes the cache; `victim` is the key that an iteration over a map that is
    still full visits first. -/
inductive CacheCall where
  | add (infoHash : Bytes)
  | remove (infoHash : Bytes)
  | expireAfter (infoHash : Bytes) (ttl : Int) (victim : Bytes)

namespace InfoHashCache

/-- The cache after a call at some time. -/
def apply (c : InfoHashCache) (call : Int × CacheCall) : InfoHashCache :=
  match call.2 with
  | .add infoHash => (c.add infoHash call.1).1
  | .remove infoHash => c.remove infoHash
  | .expireAfter infoHash ttl victim => c.expireAfter infoHash ttl call.1 victim

/-- The victim is one that the map has. -/
def Legal (c : InfoHashCache) (call : Int × CacheCall) : Prop :=
  match call.2 with
  | .expireAfter _ _ victim => c.IsVictim call.1 victim
  | _ => True

/-- The info hash has a time, and that is not after `now`. -/
def HasExpired (c : InfoHashCache) (infoHash : Bytes) (now : Int) : Prop :=
  ∃ expiresAt, c.infoHashExpiry.lookup infoHash = some expiresAt ∧ expiresAt ≤ now

/-- The call does what it should: an info hash is added if it is not in the set or has
    expired, and one that is in the set gets its time. -/
def Exact (c : InfoHashCache) (call : Int × CacheCall) : Prop :=
  match call.2 with
  | .add infoHash =>
    (c.add infoHash call.1).2 = true ↔ infoHash ∉ c.infoHashCache ∨ c.HasExpired infoHash call.1
  | .remove _ => True
  | .expireAfter infoHash ttl _ =>
    infoHash ∈ c.infoHashCache → 0 < ttl →
      infoHash ∈ (c.apply call).infoHashCache ∧
        (c.apply call).infoHashExpiry.lookup infoHash = some (call.1 + ttl)

/-- Only info hashes in the set have a time, and not too many. -/
structure Bounded (c : InfoHashCache) : Prop where
  expiring : c.Expiring
  len_le : c.infoHashExpiry.len ≤ maxExpiringInfoHashes

/-- When the map is full, the info hash in the set that gets a new time has not expired and
    is not the victim. -/
def Spared (c : InfoHashCache) (call : Int × CacheCall) : Prop :=
  match call.2 with
  | .expireAfter infoHash _ victim =>
    infoHash ∈ c.infoHashCache → maxExpiringInfoHashes ≤ c.infoHashExpiry.len →
      ¬ c.HasExpired infoHash call.1 ∧
        (maxExpiringInfoHashes ≤ (c.removeExpired call.1).infoHashExpiry.len → victim ≠ infoHash)
  | _ => True

/-! ## The sweep -/

/-- What only a removal of `h` ends, a sweep over some entries ends if an expired one of them
    is the entry of `h`. -/
theorem sweep_iff {P : InfoHashCache → Prop} {h : Bytes}
    (hP : ∀ (c : InfoHashCache) (k : Bytes), P (c.remove k) ↔ h ≠ k ∧ P c) (now : Int)
    (es : List (Sigma fun _ : Bytes => Int)) (c : InfoHashCache) :
    P (es.foldl (fun c e => if ¬ now < e.2 then c.remove e.1 else c) c) ↔
      P c ∧ ¬ ∃ e ∈ es, e.1 = h ∧ ¬ now < e.2 := by
  induction es generalizing c with
  | nil => simp
  | cons e es ih =>
    rw [List.foldl_cons, ih]
    by_cases hexpired : now < e.2
    · simp [hexpired]
    · by_cases heq : e.1 = h
      · simp [hexpired, heq, hP]
      · simp [hexpired, heq, hP, Ne.symm heq]

theorem hasExpired_iff (c : InfoHashCache) (h : Bytes) (now : Int) :
    c.HasExpired h now ↔ ∃ e ∈ c.infoHashExpiry.entries, e.1 = h ∧ ¬ now < e.2 := by
  constructor
  · rintro ⟨expiresAt, hlookup, hle⟩
    exact ⟨⟨h, expiresAt⟩, AList.mem_entries_iff.2 hlookup, rfl, Int.not_lt.2 hle⟩
  · rintro ⟨⟨k, expiresAt⟩, hmem, rfl, hle⟩
    exact ⟨expiresAt, AList.mem_entries_iff.1 hmem, Int.not_lt.1 hle⟩

theorem mem_removeExpired (c : InfoHashCache) (now : Int) (h : Bytes) :
    h ∈ (c.removeExpired now).infoHashCache ↔ h ∈ c.infoHashCache ∧ ¬ c.HasExpired h now := by
  rw [hasExpired_iff]
  exact sweep_iff (P := fun c => h ∈ c.infoHashCache) (fun _ _ => mem_remove) now _ c

theorem mem_expiry_removeExpired (c : InfoHashCache) (now : Int) (h : Bytes) :
    h ∈ (c.removeExpired now).infoHashExpiry ↔ h ∈ c.infoHashExpiry ∧ ¬ c.HasExpired h now := by
  rw [hasExpired_iff]
  exact sweep_iff (P := fun c => h ∈ c.infoHashExpiry) (fun _ _ => mem_expiry_remove) now _ c

/-- A call of `InfoHashCacheRemove` does not lengthen the map of times. -/
theorem len_remove_le (c : InfoHashCache) (infoHash : Bytes) :
    (c.remove infoHash).infoHashExpiry.len ≤ c.infoHashExpiry.len := AList.len_erase_le _ _

theorem len_removeExpired_le (c : InfoHashCache) (now : Int) :
    (c.removeExpired now).infoHashExpiry.len ≤ c.infoHashExpiry.len := by
  unfold removeExpired
  generalize c.infoHashExpiry.entries = es
  induction es generalizing c with
  | nil => exact Nat.le_refl _
  | cons e es ih =>
    refine (ih _).trans ?_
    dsimp only
    split
    · exact len_remove_le _ _
    · exact Nat.le_refl _

theorem Expiring.removeExpired {c : InfoHashCache} (hc : c.Expiring) (now : Int) :
    (c.removeExpired now).Expiring := (Spares.removeExpired hc now).expiring

/-! ## The room for a new time -/

/-- The cache when `InfoHashCacheExpireAfter` enters the new time. -/
def makeRoom (c : InfoHashCache) (now : Int) (victim : Bytes) : InfoHashCache :=
  let c := if maxExpiringInfoHashes ≤ c.infoHashExpiry.len then c.removeExpired now else c
  if maxExpiringInfoHashes ≤ c.infoHashExpiry.len then c.remove victim else c

theorem expireAfter_eq (c : InfoHashCache) (infoHash : Bytes) (ttl now : Int) (victim : Bytes) :
    c.expireAfter infoHash ttl now victim =
      if infoHash ∉ c.infoHashCache then c
      else { c.makeRoom now victim with
        infoHashExpiry := (c.makeRoom now victim).infoHashExpiry.insert infoHash (now + ttl) } :=
  rfl

theorem makeRoom_of_room {c : InfoHashCache} (h : ¬ maxExpiringInfoHashes ≤ c.infoHashExpiry.len)
    (now : Int) (victim : Bytes) : c.makeRoom now victim = c := by
  simp only [makeRoom, h, if_false]

theorem makeRoom_of_swept {c : InfoHashCache} {now : Int}
    (hfull : maxExpiringInfoHashes ≤ c.infoHashExpiry.len)
    (hswept : ¬ maxExpiringInfoHashes ≤ (c.removeExpired now).infoHashExpiry.len)
    (victim : Bytes) : c.makeRoom now victim = c.removeExpired now := by
  simp only [makeRoom, hfull, hswept, if_true, if_false]

theorem makeRoom_of_full {c : InfoHashCache} {now : Int}
    (hfull : maxExpiringInfoHashes ≤ c.infoHashExpiry.len)
    (hstill : maxExpiringInfoHashes ≤ (c.removeExpired now).infoHashExpiry.len)
    (victim : Bytes) : c.makeRoom now victim = (c.removeExpired now).remove victim := by
  simp only [makeRoom, hfull, hstill, if_true]

/-- There is room for one more time, if the victim is in the map. -/
theorem makeRoom_bounded {c : InfoHashCache} (hc : c.Bounded) {now : Int} {victim : Bytes}
    (hvictim : c.IsVictim now victim) :
    (c.makeRoom now victim).Expiring ∧
      (c.makeRoom now victim).infoHashExpiry.len < maxExpiringInfoHashes := by
  by_cases hfull : maxExpiringInfoHashes ≤ c.infoHashExpiry.len
  · have hle := (c.len_removeExpired_le now).trans hc.len_le
    by_cases hstill : maxExpiringInfoHashes ≤ (c.removeExpired now).infoHashExpiry.len
    · obtain ⟨expiresAt, hlookup⟩ :=
        Option.isSome_iff_exists.1 (AList.lookup_isSome.2 (hvictim hfull hstill))
      have hlen := AList.len_erase_of_lookup hlookup
      rw [makeRoom_of_full hfull hstill]
      exact ⟨(hc.expiring.removeExpired now).remove victim, by simp only [remove]; omega⟩
    · rw [makeRoom_of_swept hfull hstill]
      exact ⟨hc.expiring.removeExpired now, Nat.lt_of_not_le hstill⟩
  · rw [makeRoom_of_room hfull]
    exact ⟨hc.expiring, Nat.lt_of_not_le hfull⟩

/-- Making room keeps an info hash in the set exactly when it is spared. -/
theorem mem_makeRoom {c : InfoHashCache} {infoHash : Bytes} (hmem : infoHash ∈ c.infoHashCache)
    (ttl now : Int) (victim : Bytes) :
    infoHash ∈ (c.makeRoom now victim).infoHashCache ↔
      c.Spared (now, .expireAfter infoHash ttl victim) := by
  simp only [Spared, hmem, true_implies]
  by_cases hfull : maxExpiringInfoHashes ≤ c.infoHashExpiry.len
  · by_cases hstill : maxExpiringInfoHashes ≤ (c.removeExpired now).infoHashExpiry.len
    · rw [makeRoom_of_full hfull hstill, mem_remove, mem_removeExpired]
      simp only [hfull, hstill, hmem, true_implies, true_and, ne_eq, eq_comm, and_comm]
    · rw [makeRoom_of_swept hfull hstill, mem_removeExpired]
      simp only [hfull, hstill, hmem, true_implies, false_implies, true_and, and_true]
  · rw [makeRoom_of_room hfull]
    simp only [hfull, hmem, false_implies]

/-! ## One call -/

theorem add_exact (c : InfoHashCache) (infoHash : Bytes) (now : Int) :
    c.Exact (now, .add infoHash) := by
  simp only [Exact, add, HasExpired]
  cases c.infoHashExpiry.lookup infoHash with
  | none => simp
  | some expiresAt =>
    by_cases hlive : now < expiresAt
    · simp [hlive]
    · simp [hlive, mem_remove, Int.not_lt.1 hlive]

theorem Bounded.remove {c : InfoHashCache} (hc : c.Bounded) (infoHash : Bytes) :
    (c.remove infoHash).Bounded :=
  ⟨hc.expiring.remove infoHash, (c.len_remove_le infoHash).trans hc.len_le⟩

theorem Bounded.add {c : InfoHashCache} (hc : c.Bounded) (infoHash : Bytes) (now : Int) :
    (c.add infoHash now).1.Bounded := by
  obtain ⟨c₀, hc₀, hadd⟩ := c.add_cases infoHash now
  have hbounded : c₀.Bounded := by
    rcases hc₀ with rfl | ⟨rfl, -⟩
    · exact hc
    · exact hc.remove infoHash
  rw [hadd]
  exact ⟨fun h hh => Finset.mem_insert_of_mem (hbounded.expiring h hh), hbounded.len_le⟩

/-- A legal call in a cache with times for info hashes in its set keeps to that, and does what
    it should, exactly when it spares the info hash that it is about. -/
theorem apply_iff {c : InfoHashCache} (hc : c.Bounded) {call : Int × CacheCall}
    (hlegal : c.Legal call) :
    c.Exact call ∧ (c.apply call).Bounded ↔ c.Spared call := by
  obtain ⟨now, call⟩ := call
  cases call with
  | add infoHash => exact iff_of_true ⟨c.add_exact infoHash now, hc.add infoHash now⟩ trivial
  | remove infoHash => exact iff_of_true ⟨trivial, hc.remove infoHash⟩ trivial
  | expireAfter infoHash ttl victim =>
    have happly : c.apply (now, .expireAfter infoHash ttl victim) =
      c.expireAfter infoHash ttl now victim := rfl
    by_cases hmem : infoHash ∈ c.infoHashCache
    · rw [← mem_makeRoom hmem]
      simp only [Exact, happly, expireAfter_eq, not_not.2 hmem, if_false]
      obtain ⟨hexpiring, hlen⟩ := makeRoom_bounded hc hlegal
      constructor
      · -- the new time belongs to an info hash in the set
        rintro ⟨-, hbounded⟩
        exact hbounded.expiring infoHash ((AList.mem_insert _).2 (.inl rfl))
      · intro hin
        refine ⟨fun _ _ => ⟨hin, AList.lookup_insert _⟩, ⟨fun h hh => ?_, ?_⟩⟩
        · rcases (AList.mem_insert _).1 hh with rfl | hh
          · exact hin
          · exact hexpiring h hh
        · exact (AList.len_insert_le _ _ _).trans hlen
    · refine iff_of_true ⟨fun hin => absurd hin hmem, ?_⟩ fun hin => absurd hin hmem
      rw [happly, expireAfter_eq, if_pos hmem]
      exact hc

/-! ## Sequences of calls -/

theorem bounded_empty : emptyInfoHashCache.Bounded :=
  ⟨fun h hh => absurd hh (AList.notMem_empty h), Nat.zero_le _⟩

theorem spared_of_exact {calls : List (Int × CacheCall)}
    (hlegal : Along apply Legal emptyInfoHashCache calls)
    (h : Along apply (fun c call => c.Exact call ∧ (c.apply call).Bounded) emptyInfoHashCache
      calls) : Along apply Spared emptyInfoHashCache calls := by
  refine Along.imp (I := Bounded) (fun c call hc hcall => ?_) bounded_empty (hlegal.and h)
  exact ⟨(apply_iff hc hcall.1).1 hcall.2, hcall.2.2⟩

/-- Over a sequence of calls, at whatever times, each call does what it should and leaves times
    for info hashes in the set only, and not too many, exactly when every refresh spares the
    info hash that it is about. -/
theorem calls_exact_iff {calls : List (Int × CacheCall)}
    (hlegal : Along apply Legal emptyInfoHashCache calls) :
    Along apply (fun c call => c.Exact call ∧ (c.apply call).Bounded) emptyInfoHashCache calls ↔
      Along apply Spared emptyInfoHashCache calls := by
  refine ⟨spared_of_exact hlegal, fun h => ?_⟩
  refine Along.imp (I := Bounded) (fun c call hc hcall => ?_) bounded_empty (hlegal.and h)
  have hdone := (apply_iff hc hcall.1).2 hcall.2
  exact ⟨hdone, hdone.2⟩

/-- An entry that expires, is given a time, and is found again once it has expired. -/
theorem calls_exact_iff_retry :
    Along apply (fun c call => c.Exact call ∧ (c.apply call).Bounded) emptyInfoHashCache
      [(0, .add [7]), (0, .expireAfter [7] 5 []), (6, .add [7])] := by
  have hroom : ∀ c : InfoHashCache, c.infoHashExpiry.len = 0 →
      ¬ maxExpiringInfoHashes ≤ c.infoHashExpiry.len := by
    intro c hc
    rw [hc]
    decide
  have hlegal : Along apply Legal emptyInfoHashCache
      [(0, .add [7]), (0, .expireAfter [7] 5 []), (6, .add [7])] :=
    ⟨trivial, fun hfull => absurd hfull (hroom _ rfl), trivial, trivial⟩
  exact (calls_exact_iff hlegal).2
    ⟨trivial, fun _ hfull => absurd hfull (hroom _ rfl), trivial, trivial⟩

/-! ## A full map -/

/-- An info hash for each number. -/
def numbered (i : Nat) : Bytes :=
  .ofNat (i / 65536) :: .ofNat (i / 256) :: .ofNat i :: List.replicate 17 0

theorem numbered_inj {i j : Nat} (hi : i < 2 ^ 24) (hj : j < 2 ^ 24)
    (h : numbered i = numbered j) : i = j := by
  simp only [numbered, List.cons.injEq, and_true] at h
  obtain ⟨h₁, h₂, h₃⟩ := h
  have h₁ := congrArg UInt8.toNat h₁
  have h₂ := congrArg UInt8.toNat h₂
  have h₃ := congrArg UInt8.toNat h₃
  simp only [UInt8.toNat_ofNat'] at h₁ h₂ h₃
  omega

/-- The first `n` info hashes are added and given a time. -/
def fill : Nat → List (Int × CacheCall)
  | 0 => []
  | n + 1 => fill n ++ [(0, .add (numbered n)), (0, .expireAfter (numbered n) 1 [])]

def filled (n : Nat) : InfoHashCache := (fill n).foldl apply emptyInfoHashCache

theorem times_fill (n : Nat) : (fill n).map Prod.fst = List.replicate (2 * n) 0 := by
  induction n with
  | zero => rfl
  | succ n ih =>
    rw [fill, List.map_append, ih, Nat.mul_succ, List.replicate_add]
    rfl

structure FilledWith (c : InfoHashCache) (n : Nat) : Prop where
  len_eq : c.infoHashExpiry.len = n
  timed : ∀ i < n, numbered i ∈ c.infoHashCache ∧ c.infoHashExpiry.lookup (numbered i) = some 1
  times : ∀ h t, c.infoHashExpiry.lookup h = some t → t = 1
  untimed : ∀ i, n ≤ i → i < 2 ^ 24 → c.infoHashExpiry.lookup (numbered i) = none

theorem add_of_untimed {c : InfoHashCache} {infoHash : Bytes}
    (h : c.infoHashExpiry.lookup infoHash = none) (now : Int) :
    (c.add infoHash now).1 = { c with infoHashCache := insert infoHash c.infoHashCache } := by
  simp only [add, h]

theorem expireAfter_of_room {c : InfoHashCache} {infoHash : Bytes}
    (hmem : infoHash ∈ c.infoHashCache) (hroom : c.infoHashExpiry.len < maxExpiringInfoHashes)
    (ttl now : Int) (victim : Bytes) : c.expireAfter infoHash ttl now victim =
      { c with infoHashExpiry := c.infoHashExpiry.insert infoHash (now + ttl) } := by
  rw [expireAfter_eq, if_neg (not_not.2 hmem), makeRoom_of_room (Nat.not_le.2 hroom)]

theorem filled_succ {n : Nat} (hc : FilledWith (filled n) n) (hn : n < maxExpiringInfoHashes) :
    filled (n + 1) = ⟨insert (numbered n) (filled n).infoHashCache,
      (filled n).infoHashExpiry.insert (numbered n) 1⟩ := by
  have hnew := hc.untimed n (Nat.le_refl n) (hn.trans (by decide))
  have hfill : filled (n + 1) =
      ((filled n).add (numbered n) 0).1.expireAfter (numbered n) 1 0 [] := by
    simp only [filled, fill, List.foldl_append, List.foldl_cons, List.foldl_nil, apply]
  rw [hfill, add_of_untimed hnew, expireAfter_of_room (Finset.mem_insert_self _ _)]
  · rfl
  · exact hc.len_eq.trans_lt hn

theorem filledWith_filled {n : Nat} (hn : n ≤ maxExpiringInfoHashes) :
    FilledWith (filled n) n := by
  induction n with
  | zero =>
    refine ⟨rfl, fun i hi => absurd hi (Nat.not_lt_zero i), fun h t ht => ?_, fun i _ _ => ?_⟩
    · cases ht
    · exact AList.lookup_empty _
  | succ n ih =>
    have hc := ih (Nat.le_of_succ_le hn)
    have hlt : n < 2 ^ 24 := Nat.lt_of_lt_of_le hn (by decide)
    rw [filled_succ hc hn]
    refine ⟨?_, fun i hi => ?_, fun h t ht => ?_, fun i hle hi => ?_⟩
    · rw [AList.len_insert_of_lookup_none (hc.untimed n (Nat.le_refl n) hlt), hc.len_eq]
    · rcases Nat.lt_or_eq_of_le (Nat.le_of_lt_succ hi) with hold | rfl
      · have hne : numbered i ≠ numbered n := fun heq =>
          Nat.ne_of_lt hold (numbered_inj (hold.trans hlt) hlt heq)
        obtain ⟨hmem, hlookup⟩ := hc.timed i hold
        exact ⟨Finset.mem_insert_of_mem hmem, (AList.lookup_insert_ne hne).trans hlookup⟩
      · exact ⟨Finset.mem_insert_self _ _, AList.lookup_insert _⟩
    · rw [AList.lookup_insert_eq_ite] at ht
      split at ht
      · exact (Option.some.inj ht).symm
      · exact hc.times h t ht
    · have hne : numbered i ≠ numbered n := fun heq =>
        Nat.ne_of_gt (Nat.lt_of_succ_le hle) (numbered_inj hi hlt heq)
      exact (AList.lookup_insert_ne hne).trans (hc.untimed i (Nat.le_of_succ_le hle) hi)

theorem fill_legal {n : Nat} (hn : n ≤ maxExpiringInfoHashes) :
    Along apply Legal emptyInfoHashCache (fill n) := by
  induction n with
  | zero => exact trivial
  | succ n ih =>
    have hc := filledWith_filled (Nat.le_of_succ_le hn)
    refine along_append.2 ⟨ih (Nat.le_of_succ_le hn), trivial, fun hfull => ?_, trivial⟩
    -- the map has had room for each of them
    have hnew := hc.untimed n (Nat.le_refl n) (Nat.lt_of_lt_of_le hn (by decide))
    have hlen : ((filled n).add (numbered n) 0).1.infoHashExpiry.len = n := by
      rw [add_of_untimed hnew]
      exact hc.len_eq
    change maxExpiringInfoHashes ≤ ((filled n).add (numbered n) 0).1.infoHashExpiry.len at hfull
    rw [hlen] at hfull
    exact absurd hn (Nat.not_le.2 (Nat.lt_succ_of_le hfull))

/-- `n` entries that expire, and the refresh of one of them after that. -/
def refreshExpired (n : Nat) : List (Int × CacheCall) :=
  fill n ++ [(2, .expireAfter (numbered 0) 1 [])]

theorem times_refreshExpired (n : Nat) :
    ((refreshExpired n).map Prod.fst).Pairwise (· ≤ ·) := by
  rw [refreshExpired, List.map_append, times_fill]
  refine List.pairwise_append.2 ⟨List.pairwise_replicate.2 (.inr (Int.le_refl 0)),
    List.pairwise_singleton _ _, fun x hx y hy => ?_⟩
  rw [List.eq_of_mem_replicate hx, List.mem_singleton.1 hy]
  decide

/-- The sweep at the refresh leaves nothing of the map. -/
theorem FilledWith.swept {c : InfoHashCache} {n : Nat} (hc : FilledWith c n) :
    (c.removeExpired 2).infoHashExpiry.len = 0 := by
  have hnone : ∀ h, h ∉ (c.removeExpired 2).infoHashExpiry := by
    intro h hmem
    obtain ⟨hin, hlive⟩ := (mem_expiry_removeExpired c 2 h).1 hmem
    obtain ⟨t, ht⟩ := Option.isSome_iff_exists.1 (AList.lookup_isSome.2 hin)
    obtain rfl := hc.times h t ht
    exact hlive ⟨1, ht, by decide⟩
  rw [AList.len, List.length_eq_zero_iff, List.eq_nil_iff_forall_not_mem]
  exact fun e he => hnone e.1 (List.mem_map_of_mem he)

theorem refreshExpired_legal {n : Nat} (hn : n = maxExpiringInfoHashes) :
    Along apply Legal emptyInfoHashCache (refreshExpired n) := by
  have hc := filledWith_filled (Nat.le_of_eq hn)
  refine along_append.2 ⟨fill_legal (Nat.le_of_eq hn), fun _ hstill => ?_, trivial⟩
  have hzero : maxExpiringInfoHashes ≤ 0 := hstill.trans_eq hc.swept
  exact absurd hzero (by decide)

theorem refreshExpired_not_exact {n : Nat} (hn : n = maxExpiringInfoHashes) :
    ¬ Along apply (fun c call => c.Exact call ∧ (c.apply call).Bounded) emptyInfoHashCache
      (refreshExpired n) := by
  intro h
  have hc := filledWith_filled (Nat.le_of_eq hn)
  have hpos : 0 < n := by rw [hn]; decide
  obtain ⟨hmem, htime⟩ := hc.timed 0 hpos
  have hspared := spared_of_exact (refreshExpired_legal hn) h
  have hlast := (along_append.1 hspared).2.1 hmem (by rw [← hn]; exact hc.len_eq.ge)
  exact hlast.1 ⟨1, htime, by decide⟩

/-- A full map whose entries have all expired: the refresh sweeps its info hash out of the set,
    and gives it a time all the same. -/
theorem refresh_of_expired :
    ((refreshExpired maxExpiringInfoHashes).map Prod.fst).Pairwise (· ≤ ·) ∧
    Along apply Legal emptyInfoHashCache (refreshExpired maxExpiringInfoHashes) ∧
    ¬ Along apply (fun c call => c.Exact call ∧ (c.apply call).Bounded) emptyInfoHashCache
      (refreshExpired maxExpiringInfoHashes) := by
  obtain ⟨n, hn⟩ : ∃ n, n = maxExpiringInfoHashes := ⟨_, rfl⟩
  rw [← hn]
  exact ⟨times_refreshExpired n, refreshExpired_legal hn, refreshExpired_not_exact hn⟩

end InfoHashCache

end Cache
