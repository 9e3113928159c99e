-- SUMMARY: The k items of a list with the smallest keys, and the two facts by which a sorted list gives them.
import Mathlib.Data.List.Nodup
import Mathlib.Order.Lattice

/-!
# Selection

`Smallest key all k chosen`: the list `chosen` holds the `k` items of `all` with the
smallest keys, in the order of the keys. It is what a prefix of the sorted items is, and
it leaves no choice: at most one list is the selection.
-/

variable {α κ : Type*} [LinearOrder κ] {key : α → κ}

/-- `chosen` is the selection of the `k` items of `all` with the smallest keys. -/
structure Smallest (key : α → κ) (all : List α) (k : Nat) (chosen : List α) : Prop where
  length_eq : chosen.length = min k all.length
  mem : ∀ a ∈ chosen, a ∈ all
  sorted : chosen.Pairwise fun a b => key a < key b
  farther : ∀ a ∈ all, a ∉ chosen → ∀ b ∈ chosen, key b < key a

/-- Sorted items with different keys are strictly sorted. -/
theorem pairwise_lt_of_pairwise_le {items : List α}
    (hsorted : items.Pairwise fun a b => key a ≤ key b) (hkeys : (items.map key).Nodup) :
    items.Pairwise fun a b => key a < key b := by
  have hne : items.Pairwise fun a b => key a ≠ key b := List.pairwise_map.1 hkeys
  exact (hsorted.and hne).imp fun h => lt_of_le_of_ne h.1 h.2

/-- The first items of a sort are the smallest ones. -/
theorem Smallest.take {all items : List α} (hperm : items.Perm all)
    (hsorted : items.Pairwise fun a b => key a < key b) (k : Nat) :
    Smallest key all k (items.take k) := by
  constructor
  · rw [List.length_take, hperm.length_eq]
  · intro a ha
    exact hperm.mem_iff.1 (List.mem_of_mem_take ha)
  · exact hsorted.sublist (List.take_sublist k items)
  · intro a ha hout b hb
    have hmem : a ∈ items.take k ++ items.drop k := by
      rw [List.take_append_drop]
      exact hperm.mem_iff.2 ha
    have hdrop : a ∈ items.drop k := (List.mem_append.1 hmem).resolve_left hout
    rw [← List.take_append_drop k items] at hsorted
    exact (List.pairwise_append.1 hsorted).2.2 b hb a hdrop

/-- Selected items have different keys, so they are different. -/
theorem Smallest.nodup_map {all chosen : List α} {k : Nat} (h : Smallest key all k chosen) :
    (chosen.map key).Nodup :=
  List.pairwise_map.2 (h.sorted.imp ne_of_lt)
