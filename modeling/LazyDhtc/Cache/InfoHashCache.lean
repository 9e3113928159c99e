-- SUMMARY: The process-wide cache of info hashes that have been seen, and what each operation does to its set.
import LazyDhtc.Lib.Bytes
import LazyDhtc.Lib.GoMap
import Mathlib.Data.Finset.Basic

/-!
# Info-hash cache

The crawler enters an info hash here before it downloads it, and takes it out when it
cannot. Entries of delivered info hashes may be given a time at which they expire.
-/

namespace Cache

def maxExpiringInfoHashes : Nat := 100000

structure InfoHashCache where
  infoHashCache : Finset Bytes
  infoHashExpiry : GoMap Bytes Int

def emptyInfoHashCache : InfoHashCache := ⟨∅, ∅⟩

namespace InfoHashCache

/-- `InfoHashCacheRemove`. -/
def remove (c : InfoHashCache) (infoHash : Bytes) : InfoHashCache :=
  ⟨c.infoHashCache.erase infoHash, c.infoHashExpiry.erase infoHash⟩

/-- `InfoHashCacheContains`. -/
def contains (c : InfoHashCache) (infoHash : Bytes) : Bool := infoHash ∈ c.infoHashCache

/-- `InfoHashCacheAdd`: an expired entry is taken out first. -/
def add (c : InfoHashCache) (infoHash : Bytes) (now : Int) : InfoHashCache × Bool :=
  let c :=
    match c.infoHashExpiry.lookup infoHash with
    | some expiresAt => if ¬ now < expiresAt then c.remove infoHash else c
    | none => c
  ({ c with infoHashCache := insert infoHash c.infoHashCache }, ¬ infoHash ∈ c.infoHashCache)

/-- The loop of `InfoHashCacheExpireAfter` that takes the expired entries out. -/
def removeExpired (c : InfoHashCache) (now : Int) : InfoHashCache :=
  c.infoHashExpiry.entries.foldl (fun c e => if ¬ now < e.2 then c.remove e.1 else c) c

/-- `InfoHashCacheExpireAfter`; `victim` is the key that the iteration over the full map
    visits first. -/
def expireAfter (c : InfoHashCache) (infoHash : Bytes) (ttl now : Int) (victim : Bytes) :
    InfoHashCache :=
  if infoHash ∉ c.infoHashCache then c
  else
    let c := if maxExpiringInfoHashes ≤ c.infoHashExpiry.len then c.removeExpired now else c
    let c := if maxExpiringInfoHashes ≤ c.infoHashExpiry.len then c.remove victim else c
    { c with infoHashExpiry := c.infoHashExpiry.insert infoHash (now + ttl) }

/-! ## The set -/

theorem mem_remove {c : InfoHashCache} {infoHash h : Bytes} :
    h ∈ (c.remove infoHash).infoHashCache ↔ h ≠ infoHash ∧ h ∈ c.infoHashCache := Finset.mem_erase

/-- Adding an info hash changes nothing for the others. -/
theorem mem_add_of_ne {c : InfoHashCache} {infoHash h : Bytes} (hne : h ≠ infoHash) (now : Int) :
    h ∈ (c.add infoHash now).1.infoHashCache ↔ h ∈ c.infoHashCache := by
  unfold add
  split
  · split <;> simp [mem_remove, hne]
  · simp [hne]

theorem mem_of_add {c c' : InfoHashCache} {infoHash h : Bytes} {now : Int} {added : Bool}
    (hadd : c.add infoHash now = (c', added)) (hne : h ≠ infoHash)
    (hmem : h ∈ c'.infoHashCache) : h ∈ c.infoHashCache := by
  have hiff := mem_add_of_ne (c := c) hne now
  rw [hadd] at hiff
  exact hiff.1 hmem

/-- An info hash is added only if it is not there, or has expired. -/
theorem mem_of_add_false {c : InfoHashCache} {infoHash : Bytes} {now : Int}
    (h : (c.add infoHash now).2 = false) : infoHash ∈ c.infoHashCache := by
  unfold add at h
  dsimp only at h
  split at h
  · split at h
    · simp [mem_remove] at h
    · simpa using h
  · simpa using h

theorem remove_subset (c : InfoHashCache) (infoHash : Bytes) :
    (c.remove infoHash).infoHashCache ⊆ c.infoHashCache := Finset.erase_subset _ _

theorem removeExpired_subset (c : InfoHashCache) (now : Int) :
    (c.removeExpired now).infoHashCache ⊆ c.infoHashCache := by
  unfold removeExpired
  generalize c.infoHashExpiry.entries = es
  induction es generalizing c with
  | nil => exact Finset.Subset.refl _
  | cons e es ih =>
    refine (ih _).trans ?_
    dsimp only
    split
    · exact remove_subset _ _
    · exact Finset.Subset.refl _

theorem expireAfter_subset (c : InfoHashCache) (infoHash : Bytes) (ttl now : Int) (victim : Bytes) :
    (c.expireAfter infoHash ttl now victim).infoHashCache ⊆ c.infoHashCache := by
  unfold expireAfter
  split
  · exact Finset.Subset.refl _
  · have hexpired : (if maxExpiringInfoHashes ≤ c.infoHashExpiry.len then c.removeExpired now
        else c).infoHashCache ⊆ c.infoHashCache := by
      split
      · exact removeExpired_subset _ _
      · exact Finset.Subset.refl _
    refine Finset.Subset.trans ?_ hexpired
    dsimp only
    generalize (if maxExpiringInfoHashes ≤ c.infoHashExpiry.len then c.removeExpired now else c) = c'
    split
    · exact remove_subset _ _
    · exact Finset.Subset.refl _

/-! ## Expiry -/

/-- The info hash is in the cache until it is removed or given a time. -/
def Kept (c : InfoHashCache) (infoHash : Bytes) : Prop :=
  infoHash ∈ c.infoHashCache ∧ infoHash ∉ c.infoHashExpiry

/-- Only info hashes in the set have a time at which they expire. -/
def Expiring (c : InfoHashCache) : Prop := ∀ h ∈ c.infoHashExpiry, h ∈ c.infoHashCache

theorem mem_expiry_remove {c : InfoHashCache} {infoHash h : Bytes} :
    h ∈ (c.remove infoHash).infoHashExpiry ↔ h ≠ infoHash ∧ h ∈ c.infoHashExpiry := AList.mem_erase

theorem Expiring.remove {c : InfoHashCache} (hc : c.Expiring) (infoHash : Bytes) :
    (c.remove infoHash).Expiring := fun h hh => by
  obtain ⟨hne, hmem⟩ := mem_expiry_remove.1 hh
  exact mem_remove.2 ⟨hne, hc h hmem⟩

theorem Kept.remove {c : InfoHashCache} {infoHash h : Bytes} (hc : c.Kept h)
    (hne : h ≠ infoHash) : (c.remove infoHash).Kept h :=
  ⟨mem_remove.2 ⟨hne, hc.1⟩, fun hmem => hc.2 (mem_expiry_remove.1 hmem).2⟩

/-- `InfoHashCacheAdd` inserts into the cache, or into what is left of it without the entry. -/
theorem add_cases (c : InfoHashCache) (infoHash : Bytes) (now : Int) :
    ∃ c₀ : InfoHashCache, (c₀ = c ∨ c₀ = c.remove infoHash ∧ infoHash ∈ c.infoHashExpiry) ∧
      c.add infoHash now = ({ c₀ with infoHashCache := insert infoHash c₀.infoHashCache },
        decide (infoHash ∉ c₀.infoHashCache)) := by
  unfold add
  cases hlookup : c.infoHashExpiry.lookup infoHash with
  | none => exact ⟨c, .inl rfl, rfl⟩
  | some expiresAt =>
    have hmem : infoHash ∈ c.infoHashExpiry := by
      rw [← AList.lookup_isSome, hlookup]
      rfl
    by_cases hlive : now < expiresAt
    · exact ⟨c, .inl rfl, by simp [hlive]⟩
    · exact ⟨c.remove infoHash, .inr ⟨rfl, hmem⟩, by simp [hlive]⟩

/-- When it returns true the info hash was not kept, and is from now on. -/
theorem add_true {c c' : InfoHashCache} {infoHash : Bytes} {now : Int} (hc : c.Expiring)
    (h : c.add infoHash now = (c', true)) :
    ¬ c.Kept infoHash ∧ c'.Kept infoHash ∧ c'.Expiring ∧
      ∀ h' ≠ infoHash, (h' ∈ c'.infoHashCache ↔ h' ∈ c.infoHashCache) ∧
        (h' ∈ c'.infoHashExpiry ↔ h' ∈ c.infoHashExpiry) := by
  obtain ⟨c₀, hc₀, hadd⟩ := c.add_cases infoHash now
  obtain ⟨rfl, hnew⟩ := Prod.ext_iff.1 (hadd.symm.trans h)
  have hnot : infoHash ∉ c₀.infoHashCache := of_decide_eq_true hnew
  have hexpiring : c₀.Expiring := by
    rcases hc₀ with rfl | ⟨rfl, -⟩
    · exact hc
    · exact hc.remove infoHash
  refine ⟨fun hkept => ?_, ⟨Finset.mem_insert_self _ _, fun hmem => hnot (hexpiring _ hmem)⟩,
    fun h' hh' => Finset.mem_insert_of_mem (hexpiring h' hh'), fun h' hne => ?_⟩
  · rcases hc₀ with rfl | ⟨-, hmem⟩
    · exact hnot hkept.1
    · exact hkept.2 hmem
  · rw [Finset.mem_insert, or_iff_right hne]
    rcases hc₀ with rfl | ⟨rfl, -⟩
    · exact ⟨Iff.rfl, Iff.rfl⟩
    · rw [mem_remove, mem_expiry_remove, and_iff_right hne, and_iff_right hne]
      exact ⟨Iff.rfl, Iff.rfl⟩

/-- When it returns false it has changed nothing. -/
theorem add_false {c c' : InfoHashCache} {infoHash : Bytes} {now : Int}
    (h : c.add infoHash now = (c', false)) : c' = c := by
  obtain ⟨c₀, hc₀, hadd⟩ := c.add_cases infoHash now
  obtain ⟨rfl, hold⟩ := Prod.ext_iff.1 (hadd.symm.trans h)
  have hmem : infoHash ∈ c₀.infoHashCache := by simpa using hold
  rcases hc₀ with rfl | ⟨rfl, -⟩
  · rw [Finset.insert_eq_of_mem hmem]
  · exact absurd rfl (mem_remove.1 hmem).1

/-- The info hashes without a time are in both caches or in neither, and both have times for
    info hashes in their sets only. -/
structure Spares (c c' : InfoHashCache) : Prop where
  expiring : c'.Expiring
  untimed : ∀ h, h ∉ c.infoHashExpiry →
    (h ∈ c'.infoHashCache ↔ h ∈ c.infoHashCache) ∧ h ∉ c'.infoHashExpiry

theorem Spares.refl {c : InfoHashCache} (hc : c.Expiring) : Spares c c :=
  ⟨hc, fun _ h => ⟨Iff.rfl, h⟩⟩

theorem Spares.remove {c c' : InfoHashCache} (h : Spares c c') {infoHash : Bytes}
    (hmem : infoHash ∈ c.infoHashExpiry) : Spares c (c'.remove infoHash) where
  expiring := h.expiring.remove infoHash
  untimed h' hh' := by
    have hne : h' ≠ infoHash := fun heq => hh' (heq ▸ hmem)
    obtain ⟨hset, hexpiry⟩ := h.untimed h' hh'
    rw [mem_remove, and_iff_right hne]
    exact ⟨hset, fun hbad => hexpiry (mem_expiry_remove.1 hbad).2⟩

theorem Spares.removeExpired {c : InfoHashCache} (hc : c.Expiring) (now : Int) :
    Spares c (c.removeExpired now) := by
  have hfold : ∀ (es : List (Sigma fun _ : Bytes => Int)) (c' : InfoHashCache), Spares c c' →
      (∀ e ∈ es, e.1 ∈ c.infoHashExpiry) →
      Spares c (es.foldl (fun c e => if ¬ now < e.2 then c.remove e.1 else c) c') := by
    intro es
    induction es with
    | nil => exact fun c' hc' _ => hc'
    | cons e es ih =>
      intro c' hc' hes
      refine ih _ ?_ fun e he => hes e (List.mem_cons_of_mem _ he)
      dsimp only
      split
      · exact hc'.remove (hes e List.mem_cons_self)
      · exact hc'
  refine hfold _ _ (.refl hc) ?_
  intro e he
  exact List.mem_map_of_mem he

/-- The victim of a full map is one of its keys. -/
def IsVictim (c : InfoHashCache) (now : Int) (victim : Bytes) : Prop :=
  maxExpiringInfoHashes ≤ c.infoHashExpiry.len →
    maxExpiringInfoHashes ≤ (c.removeExpired now).infoHashExpiry.len →
      victim ∈ (c.removeExpired now).infoHashExpiry

/-- `InfoHashCacheExpireAfter` takes no other info hash out that has no time. -/
theorem expireAfter_spares {c : InfoHashCache} (hc : c.Expiring) {infoHash : Bytes}
    (ttl : Int) {now : Int} {victim : Bytes} (huntimed : infoHash ∉ c.infoHashExpiry)
    (hvictim : c.IsVictim now victim) :
    (c.expireAfter infoHash ttl now victim).Expiring ∧
      ∀ h ≠ infoHash, h ∉ c.infoHashExpiry →
        (h ∈ (c.expireAfter infoHash ttl now victim).infoHashCache ↔ h ∈ c.infoHashCache) ∧
          h ∉ (c.expireAfter infoHash ttl now victim).infoHashExpiry := by
  by_cases hmem : infoHash ∈ c.infoHashCache
  · -- the cache when the time is entered
    obtain ⟨c₀, hspares, heq⟩ : ∃ c₀ : InfoHashCache, Spares c c₀ ∧
        c.expireAfter infoHash ttl now victim =
          { c₀ with infoHashExpiry := c₀.infoHashExpiry.insert infoHash (now + ttl) } := by
      unfold expireAfter
      rw [if_neg (not_not.2 hmem)]
      refine ⟨_, ?_, rfl⟩
      by_cases hfull : maxExpiringInfoHashes ≤ c.infoHashExpiry.len
      · have hspares := Spares.removeExpired hc now
        simp only [if_pos hfull]
        split
        · next hstill =>
          refine hspares.remove ?_
          by_contra hnot
          exact (hspares.untimed victim hnot).2 (hvictim hfull hstill)
        · exact hspares
      · simp only [if_neg hfull]
        exact .refl hc
    rw [heq]
    have hin := (hspares.untimed infoHash huntimed).1.2 hmem
    refine ⟨fun h hh => ?_, fun h hne hh => ⟨(hspares.untimed h hh).1, fun hbad => ?_⟩⟩
    · rcases (AList.mem_insert _).1 hh with rfl | hh
      · exact hin
      · exact hspares.expiring h hh
    · exact ((AList.mem_insert _).1 hbad).elim hne (hspares.untimed h hh).2
  · have heq : c.expireAfter infoHash ttl now victim = c := if_pos hmem
    rw [heq]
    exact ⟨hc, fun h _ hh => ⟨Iff.rfl, hh⟩⟩

end InfoHashCache

end Cache
