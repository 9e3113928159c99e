-- SUMMARY: Finite maps with unordered iteration, as association lists without repeated keys.
import Mathlib.Data.List.AList

/-!
# Maps

A map of the modelled language is an `AList`. What is added here is its size and
the number of its entries with a given property, and how both change under
`insert` and `erase`.
-/

/-- A finite map. The order of the entries is one order in which a loop may visit
    them; nothing may depend on it. -/
abbrev GoMap (K V : Type*) := AList (fun _ : K => V)

namespace AList

variable {K V : Type*}

/-- The number of entries. -/
def len (m : GoMap K V) : Nat := m.entries.length

/-- The number of entries whose value satisfies `p`. -/
def count (m : GoMap K V) (p : V → Bool) : Nat := m.entries.countP fun e => p e.2

@[simp] theorem len_empty : (∅ : GoMap K V).len = 0 := rfl

@[simp] theorem count_empty (p : V → Bool) : (∅ : GoMap K V).count p = 0 := rfl

variable [DecidableEq K]

theorem lookup_insert_eq_ite (m : GoMap K V) (k k' : K) (v : V) :
    (m.insert k v).lookup k' = if k' = k then some v else m.lookup k' := by
  split
  · next h => subst h; exact lookup_insert m
  · next h => exact lookup_insert_ne h

theorem lookup_erase_eq_ite (m : GoMap K V) (k k' : K) :
    (m.erase k).lookup k' = if k' = k then none else m.lookup k' := by
  split
  · next h => subst h; exact lookup_erase k' m
  · next h => exact lookup_erase_ne h

theorem mem_entries_iff {m : GoMap K V} {k : K} {v : V} :
    (⟨k, v⟩ : (_ : K) × V) ∈ m.entries ↔ m.lookup k = some v :=
  (mem_lookup_iff (s := m)).symm.trans Iff.rfl

/-- Taking an entry out of a map leaves the others, in some order. -/
theorem entries_perm_cons_erase {m : GoMap K V} {k : K} {v : V} (h : m.lookup k = some v) :
    List.Perm m.entries (⟨k, v⟩ :: (m.erase k).entries) := by
  have hmem : (⟨k, v⟩ : (_ : K) × V) ∈ m.entries := mem_entries_iff.2 h
  have hk : k ∈ m.entries.keys := List.mem_keys_of_mem hmem
  obtain ⟨v', l₁, l₂, hnot, hl, he⟩ := List.exists_of_kerase hk
  have hv : v' = v := by
    have h' : m.lookup k = some v' := mem_entries_iff.1 (by rw [hl]; simp)
    exact Option.some.inj (h'.symm.trans h)
  subst hv
  have herase : (m.erase k).entries = l₁ ++ l₂ := he
  rw [herase, hl]
  exact List.perm_middle

theorem len_erase_of_lookup {m : GoMap K V} {k : K} {v : V} (h : m.lookup k = some v) :
    m.len = (m.erase k).len + 1 := by
  simpa [len] using (entries_perm_cons_erase h).length_eq

theorem count_erase_of_lookup {m : GoMap K V} {k : K} {v : V} (h : m.lookup k = some v)
    (p : V → Bool) : m.count p = (m.erase k).count p + if p v then 1 else 0 := by
  have hperm := (entries_perm_cons_erase h).countP_eq fun e : (_ : K) × V => p e.2
  rw [count, hperm, List.countP_cons]
  rfl

theorem erase_of_lookup_none {m : GoMap K V} {k : K} (h : m.lookup k = none) :
    m.erase k = m := by
  apply ext
  exact List.kerase_of_notMem_keys (lookup_eq_none.1 h)

theorem len_erase_le (m : GoMap K V) (k : K) : (m.erase k).len ≤ m.len := by
  cases h : m.lookup k with
  | none => rw [erase_of_lookup_none h]
  | some v => rw [len_erase_of_lookup h]; omega

theorem len_insert_of_lookup_none {m : GoMap K V} {k : K} (h : m.lookup k = none) (v : V) :
    (m.insert k v).len = m.len + 1 := by
  rw [len, entries_insert_of_notMem (lookup_eq_none.1 h), List.length_cons, len]

theorem len_insert_of_mem {m : GoMap K V} {k : K} (h : k ∈ m) (v : V) :
    (m.insert k v).len = m.len := by
  obtain ⟨v', hv'⟩ := Option.isSome_iff_exists.1 (lookup_isSome.2 h)
  have hnew := len_erase_of_lookup (lookup_insert (a := k) (b := v) m)
  have hold := len_erase_of_lookup hv'
  have herase : (m.insert k v).erase k = m.erase k := by
    apply ext
    exact List.kerase_cons_eq rfl
  rw [hnew, herase, hold]

theorem len_insert_le (m : GoMap K V) (k : K) (v : V) : (m.insert k v).len ≤ m.len + 1 := by
  cases h : m.lookup k with
  | none => exact Nat.le_of_eq (len_insert_of_lookup_none h v)
  | some v' =>
    rw [len_insert_of_mem (lookup_isSome.1 (by rw [h]; rfl))]
    exact Nat.le_succ _

theorem count_insert_of_lookup_none {m : GoMap K V} {k : K} (h : m.lookup k = none) (v : V)
    (p : V → Bool) : (m.insert k v).count p = m.count p + if p v then 1 else 0 := by
  rw [count, entries_insert_of_notMem (lookup_eq_none.1 h), List.countP_cons, count]

end AList
