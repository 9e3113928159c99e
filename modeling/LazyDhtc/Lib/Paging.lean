-- SUMMARY: Pages of a list in the order of descending keys, and walks through the pages of a list that changes meanwhile.
import Mathlib.Data.List.Perm.Basic
import Mathlib.Order.Lattice

/-!
# Paging

A query for a page may break ties as it likes, and otherwise each time. A walk reads one
page after the other while items are added and removed. What decides whether an item comes
up is how many items have a larger key: the walk is past the item only if it has shown it,
as long as that number does not fall.
-/

variable {α κ : Type*} [LinearOrder κ] {key : α → κ}

/-- `page` has the items from `offset` on, `limit` at most, in some descending order. -/
def IsPage (key : α → κ) (all : List α) (limit offset : Nat) (page : List α) : Prop :=
  ∃ sorted : List α, sorted.Perm all ∧ sorted.Pairwise (fun a b => key b ≤ key a) ∧
    page = (sorted.drop offset).take limit

/-- How many items have a larger key than `a`. -/
def above (key : α → κ) (all : List α) (a : α) : Nat := all.countP fun b => key a < key b

/-- No other item has the key of `a`. -/
def Alone (key : α → κ) (all : List α) (a : α) : Prop := ∀ b ∈ all, key b = key a → b = a

/-! ## Places -/

/-- In a sorted list an item comes after those with a larger key. -/
theorem above_of_sorted {pre post : List α} {a : α}
    (hsorted : (pre ++ a :: post).Pairwise fun a b => key b ≤ key a)
    (halone : ∀ b ∈ pre, key b ≠ key a) : above key (pre ++ a :: post) a = pre.length := by
  obtain ⟨-, htail, hcross⟩ := List.pairwise_append.1 hsorted
  have hpre : pre.countP (fun b => key a < key b) = pre.length := by
    rw [List.countP_eq_length]
    intro b hb
    have hle : key a ≤ key b := hcross b hb a List.mem_cons_self
    exact decide_eq_true (lt_of_le_of_ne hle (halone b hb).symm)
  have hpost : (a :: post).countP (fun b => key a < key b) = 0 := by
    rw [List.countP_eq_zero]
    intro b hb
    obtain rfl | hin := List.mem_cons.1 hb
    · simp
    · simpa using (List.pairwise_cons.1 htail).1 b hin
  rw [above, List.countP_append, hpre, hpost, Nat.add_zero]

theorem IsPage.length_eq {all page : List α} {limit offset : Nat}
    (h : IsPage key all limit offset page) : page.length = min limit (all.length - offset) := by
  obtain ⟨sorted, hperm, -, rfl⟩ := h
  rw [List.length_take, List.length_drop, hperm.length_eq]

/-- An item whose key no other item has is on the page of its place, whatever the order. -/
theorem IsPage.mem {all page : List α} {limit offset : Nat} {a : α}
    (h : IsPage key all limit offset page) (hnodup : all.Nodup) (ha : a ∈ all)
    (halone : Alone key all a) (hlow : offset ≤ above key all a)
    (hhigh : above key all a < offset + limit) : a ∈ page := by
  obtain ⟨sorted, hperm, hsorted, rfl⟩ := h
  obtain ⟨pre, post, rfl⟩ := List.append_of_mem (hperm.mem_iff.2 ha)
  have hne : ∀ b ∈ pre, key b ≠ key a := by
    intro b hb heq
    have hba : b = a := halone b (hperm.subset (List.mem_append_left _ hb)) heq
    have hdisjoint := (List.nodup_append.1 (hperm.nodup_iff.2 hnodup)).2.2
    exact hdisjoint b hb a List.mem_cons_self hba
  have hplace : above key all a = pre.length := by
    rw [above, ← hperm.countP_eq]
    exact above_of_sorted hsorted hne
  rw [hplace] at hlow hhigh
  rw [List.drop_append_of_le_length hlow, List.take_append]
  refine List.mem_append_right _ ?_
  rw [List.length_drop]
  obtain ⟨n, hn⟩ : ∃ n, limit - (pre.length - offset) = n + 1 :=
    ⟨limit - (pre.length - offset) - 1, by omega⟩
  rw [hn]
  exact List.mem_cons_self

/-! ## Changes -/

theorem above_append (all new : List α) (a : α) :
    above key all a ≤ above key (all ++ new) a := by
  rw [above, above, List.countP_append]
  exact Nat.le_add_right _ _

/-- Items without a larger key are taken away. -/
theorem above_filter {all : List α} {a : α} {stays : α → Bool}
    (h : ∀ b ∈ all, key a < key b → stays b = true) :
    above key (all.filter stays) a = above key all a := by
  rw [above, above, List.countP_filter]
  refine List.countP_congr fun b hb => ?_
  simp only [Bool.and_eq_true, decide_eq_true_eq]
  exact ⟨fun hboth => hboth.1, fun hlt => ⟨hlt, h b hb hlt⟩⟩

/-! ## Walks -/

/-- After some pages the walk has shown the item, or has not come to its place. -/
def Covered (key : α → κ) (limit : Nat) (all : List α) (read : Nat) (seen : List α) (a : α) :
    Prop := a ∈ seen ∨ read * limit ≤ above key all a

theorem Covered.start (limit : Nat) (all : List α) (a : α) : Covered key limit all 0 [] a :=
  .inr (by simp)

/-- The list changes between two pages. -/
theorem Covered.change {limit read : Nat} {all all' seen : List α} {a : α}
    (h : Covered key limit all read seen a) (hle : above key all a ≤ above key all' a) :
    Covered key limit all' read seen a :=
  h.imp_right fun hread => Nat.le_trans hread hle

/-- The next page is read. -/
theorem Covered.page {limit read : Nat} {all seen page : List α} {a : α}
    (h : Covered key limit all read seen a) (hpage : IsPage key all limit (read * limit) page)
    (hnodup : all.Nodup) (ha : a ∈ all) (halone : Alone key all a) :
    Covered key limit all (read + 1) (seen ++ page) a := by
  obtain hseen | hread := h
  · exact .inl (List.mem_append_left _ hseen)
  · by_cases hhigh : above key all a < read * limit + limit
    · exact .inl (List.mem_append_right _ (hpage.mem hnodup ha halone hread hhigh))
    · refine .inr ?_
      rw [Nat.succ_mul]
      exact Nat.not_lt.1 hhigh

/-- A page that is not full ends the walk: it has shown the item. -/
theorem Covered.ends {limit read : Nat} {all seen page : List α} {a : α}
    (h : Covered key limit all read seen a) (hpage : IsPage key all limit (read * limit) page)
    (hnodup : all.Nodup) (ha : a ∈ all) (halone : Alone key all a) (hshort : page.length < limit) :
    a ∈ seen ++ page := by
  obtain hseen | hread := h
  · exact List.mem_append_left _ hseen
  · refine List.mem_append_right _ (hpage.mem hnodup ha halone hread ?_)
    have habove : above key all a < all.length := by
      refine Nat.lt_of_le_of_ne List.countP_le_length fun hall => ?_
      exact lt_irrefl (key a) (of_decide_eq_true (List.countP_eq_length.1 hall a ha))
    rw [hpage.length_eq] at hshort
    omega
