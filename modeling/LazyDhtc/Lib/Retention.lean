-- SUMMARY: Pools that several parties prune by rank: what the items that they have selected, but not yet removed, leave behind.
import Mathlib.Data.Finset.Card
import Mathlib.Order.Basic

/-!
# Retention

Several parties prune one pool. Each selects the lowest ranked items and removes them
later, when the pool may be another one. What is sheltered meanwhile are the items that
nobody has selected: as long as every selected item has `k` of them at or above its rank,
removing selected items in any order keeps the `k` highest ranked.
-/

namespace Retention

variable {α β : Type*} [DecidableEq α] [LinearOrder β] {rank : α → β} {k : ℕ}
  {pool doomed selected : Finset α}

/-- Every doomed item of the pool has `k` items that are not doomed at or above it. -/
def Sheltered (rank : α → β) (k : ℕ) (pool doomed : Finset α) : Prop :=
  ∀ d ∈ pool, d ∈ doomed → k ≤ ((pool \ doomed).filter fun u => rank d ≤ rank u).card

/-- The selected items are lowest ranked ones of the pool. -/
structure LowestOf (rank : α → β) (pool selected : Finset α) : Prop where
  subset : selected ⊆ pool
  lowest : ∀ t ∈ selected, ∀ u ∈ pool, u ∉ selected → rank t ≤ rank u

theorem Sheltered.empty : Sheltered rank k pool ∅ := fun _ _ hd => (Finset.notMem_empty _ hd).elim

/-- Items may come, and doomed items may leave or be spared. -/
theorem Sheltered.mono {pool' doomed' : Finset α} (h : Sheltered rank k pool doomed)
    (hfree : pool \ doomed ⊆ pool' \ doomed') (hdoomed : pool' ∩ doomed' ⊆ pool ∩ doomed) :
    Sheltered rank k pool' doomed' := by
  intro d hpool' hdoomed'
  have hd : d ∈ pool ∩ doomed := hdoomed (Finset.mem_inter.2 ⟨hpool', hdoomed'⟩)
  refine (h d (Finset.mem_inter.1 hd).1 (Finset.mem_inter.1 hd).2).trans ?_
  exact Finset.card_le_card (Finset.filter_subset_filter _ hfree)

/-- A selection that leaves `k` items keeps the shelter, if it breaks ties as the earlier
    ones: none of its new items ranks with a doomed item that it leaves out. -/
theorem Sheltered.select (h : Sheltered rank k pool doomed) (hsel : LowestOf rank pool selected)
    (hcard : k + selected.card ≤ pool.card)
    (hties : ∀ t ∈ selected, t ∉ doomed → ∀ u ∈ doomed, u ∈ pool → u ∉ selected →
      rank t ≠ rank u) : Sheltered rank k pool (doomed ∪ selected) := by
  -- A doomed item that is left out keeps its own shelter: the new items rank below it.
  have hleft : ∀ u ∈ pool, u ∈ doomed → u ∉ selected →
      k ≤ ((pool \ (doomed ∪ selected)).filter fun v => rank u ≤ rank v).card := by
    intro u hu hdoomed hnot
    refine (h u hu hdoomed).trans (Finset.card_le_card ?_)
    intro v hv
    obtain ⟨hfree, hrank⟩ := Finset.mem_filter.1 hv
    obtain ⟨hvpool, hvdoomed⟩ := Finset.mem_sdiff.1 hfree
    have hvsel : v ∉ selected := by
      intro hvsel
      have hle : rank v ≤ rank u := hsel.lowest v hvsel u hu hnot
      exact hties v hvsel hvdoomed u hdoomed hu hnot (le_antisymm hle hrank)
    refine Finset.mem_filter.2 ⟨Finset.mem_sdiff.2 ⟨hvpool, ?_⟩, hrank⟩
    rw [Finset.mem_union, not_or]
    exact ⟨hvdoomed, hvsel⟩
  intro d hd hunion
  by_cases hdsel : d ∈ selected
  · by_cases hsome : ∃ u ∈ pool, u ∈ doomed ∧ u ∉ selected
    · obtain ⟨u, hu, hudoomed, hunot⟩ := hsome
      refine (hleft u hu hudoomed hunot).trans (Finset.card_le_card ?_)
      intro v hv
      obtain ⟨hfree, hrank⟩ := Finset.mem_filter.1 hv
      exact Finset.mem_filter.2 ⟨hfree, (hsel.lowest d hdsel u hu hunot).trans hrank⟩
    · -- All doomed items are selected: what is left is what the selection leaves.
      have hrest : pool \ selected ⊆
          (pool \ (doomed ∪ selected)).filter fun v => rank d ≤ rank v := by
        intro v hv
        obtain ⟨hvpool, hvsel⟩ := Finset.mem_sdiff.1 hv
        have hvdoomed : v ∉ doomed := fun hvdoomed => hsome ⟨v, hvpool, hvdoomed, hvsel⟩
        refine Finset.mem_filter.2 ⟨Finset.mem_sdiff.2 ⟨hvpool, ?_⟩,
          hsel.lowest d hdsel v hvpool hvsel⟩
        rw [Finset.mem_union, not_or]
        exact ⟨hvdoomed, hvsel⟩
      refine le_trans ?_ (Finset.card_le_card hrest)
      rw [Finset.card_sdiff_of_subset hsel.subset]
      exact Nat.le_sub_of_add_le hcard
  · exact hleft d hd ((Finset.mem_union.1 hunion).resolve_right hdsel) hdsel

/-- Removing doomed items leaves `k` items at or above each of them. -/
theorem Sheltered.removed {gone : Finset α} (h : Sheltered rank k pool doomed)
    (hgone : gone ⊆ doomed) {d : α} (hd : d ∈ pool) (hdgone : d ∈ gone) :
    k ≤ ((pool \ gone).filter fun u => rank d ≤ rank u).card := by
  refine (h d hd (hgone hdgone)).trans (Finset.card_le_card ?_)
  exact Finset.filter_subset_filter _ (Finset.sdiff_subset_sdiff subset_rfl hgone)

end Retention
