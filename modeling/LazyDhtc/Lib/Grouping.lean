-- SUMMARY: Counting by groups: the loop that updates a map and the query that returns one result for each key, and windows of one width that follow each other.
import LazyDhtc.Lib.GoMap
import Mathlib.Algebra.BigOperators.Group.List.Lemmas
import Mathlib.Data.List.Dedup
import Mathlib.Data.List.Induction
import Mathlib.Data.Int.Basic
import Mathlib.Algebra.Ring.Nat

/-!
# Groups

Rows are grouped by a key. A loop reads the value of a row's key from a map, changes it and
writes it back; a query returns a result for each key that occurs, in any order. Both come
to the same as filtering the rows by the key.

Groups of times are windows: a time that is rounded down to a multiple of the width gives
the window that it lies in.
-/

namespace Grouping

variable {α β κ : Type*} [DecidableEq κ]

/-! ## Loops -/

/-- The loop `v := m[key(a)]; …; m[key(a)] = v`, in which `add` changes the value. -/
def tally (key : α → κ) (add : β → α → β) (zero : β) (rows : List α) : GoMap κ β :=
  rows.foldl (fun m a => m.insert (key a) (add ((m.lookup (key a)).getD zero) a)) ∅

/-- A round of the loop changes the value of one key, and every other key keeps its own. -/
theorem getD_lookup_foldl (key : α → κ) (add : β → α → β) (zero : β) (k : κ) (rows : List α)
    (m : GoMap κ β) :
    ((rows.foldl (fun m a => m.insert (key a) (add ((m.lookup (key a)).getD zero) a)) m).lookup
      k).getD zero =
    (rows.filter fun a => key a = k).foldl add ((m.lookup k).getD zero) := by
  induction rows generalizing m with
  | nil => rfl
  | cons a rows ih =>
    rw [List.foldl_cons, ih, AList.lookup_insert_eq_ite]
    by_cases hkey : key a = k
    · rw [if_pos hkey.symm, List.filter_cons_of_pos (by simpa using hkey), hkey]
      rfl
    · rw [if_neg fun h => hkey h.symm, List.filter_cons_of_neg (by simpa using hkey)]

theorem getD_lookup_tally (key : α → κ) (add : β → α → β) (zero : β) (rows : List α) (k : κ) :
    ((tally key add zero rows).lookup k).getD zero =
      (rows.filter fun a => key a = k).foldl add zero :=
  getD_lookup_foldl key add zero k rows ∅

theorem mem_foldl_iff (key : α → κ) (add : β → α → β) (zero : β) (k : κ) (rows : List α)
    (m : GoMap κ β) :
    k ∈ rows.foldl (fun m a => m.insert (key a) (add ((m.lookup (key a)).getD zero) a)) m ↔
      k ∈ m ∨ k ∈ rows.map key := by
  induction rows generalizing m with
  | nil => simp
  | cons a rows ih =>
    rw [List.foldl_cons, ih, AList.mem_insert, List.map_cons, List.mem_cons, or_left_comm, or_assoc]

/-- The map has the keys that occur. -/
theorem lookup_tally (key : α → κ) (add : β → α → β) (zero : β) (rows : List α) (k : κ) :
    (tally key add zero rows).lookup k =
      if k ∈ rows.map key then some ((rows.filter fun a => key a = k).foldl add zero) else none := by
  have hmem := mem_foldl_iff key add zero k rows ∅
  have hget := getD_lookup_tally key add zero rows k
  rw [or_iff_right (AList.notMem_empty k), ← AList.lookup_isSome] at hmem
  unfold tally at hget ⊢
  split
  · next hk =>
    obtain ⟨v, hv⟩ := Option.isSome_iff_exists.1 (hmem.2 hk)
    rw [hv] at hget ⊢
    exact congrArg some hget
  · next hk =>
    exact Option.not_isSome_iff_eq_none.1 fun h => hk (hmem.1 h)

/-! ## Weights -/

/-- The loop `m[k] += w` over some pairs of a key and a weight. -/
def addUp (pairs : List (κ × Nat)) : GoMap κ Nat := tally Prod.fst (fun n p => n + p.2) 0 pairs

/-- The weight of a key. -/
def total (pairs : List (κ × Nat)) (k : κ) : Nat :=
  ((pairs.filter fun p => p.1 = k).map Prod.snd).sum

omit [DecidableEq κ] in
theorem foldl_add_snd (pairs : List (κ × Nat)) (n : Nat) :
    pairs.foldl (fun n p => n + p.2) n = n + (pairs.map Prod.snd).sum := by
  induction pairs generalizing n with
  | nil => rfl
  | cons p pairs ih => rw [List.foldl_cons, ih, List.map_cons, List.sum_cons, Nat.add_assoc]

theorem total_eq_zero_iff {pairs : List (κ × Nat)} (hpos : ∀ p ∈ pairs, 0 < p.2) (k : κ) :
    total pairs k = 0 ↔ k ∉ pairs.map Prod.fst := by
  rw [total, List.sum_eq_zero_iff_forall_eq_nat]
  constructor
  · intro h hk
    obtain ⟨p, hp, rfl⟩ := List.mem_map.1 hk
    have hzero := h p.2 (List.mem_map_of_mem (List.mem_filter.2 ⟨hp, by simp⟩))
    exact absurd hzero (hpos p hp).ne'
  · intro hk w hw
    obtain ⟨p, hp, rfl⟩ := List.mem_map.1 hw
    obtain ⟨hin, heq⟩ := List.mem_filter.1 hp
    exact (hk (List.mem_map.2 ⟨p, hin, by simpa using heq⟩)).elim

/-- The map holds the weight of every key that has one. -/
theorem lookup_addUp {pairs : List (κ × Nat)} (hpos : ∀ p ∈ pairs, 0 < p.2) (k : κ) :
    (addUp pairs).lookup k = if total pairs k = 0 then none else some (total pairs k) := by
  rw [addUp, lookup_tally, foldl_add_snd, Nat.zero_add, ← total]
  simp only [total_eq_zero_iff hpos]
  rw [ite_not]

theorem total_flatMap (f : α → List (κ × Nat)) (rows : List α) (k : κ) :
    total (rows.flatMap f) k = (rows.map fun a => total (f a) k).sum := by
  induction rows with
  | nil => rfl
  | cons a rows ih =>
    rw [List.flatMap_cons, List.map_cons, List.sum_cons, ← ih]
    simp only [total, List.filter_append, List.map_append, List.sum_append]

/-- A list of keys that all have the same weight. -/
theorem total_map_const [BEq κ] [LawfulBEq κ] (ks : List κ) (n : Nat) (k : κ) :
    total (ks.map fun k' => (k', n)) k = ks.count k * n := by
  induction ks with
  | nil => simp [total]
  | cons k' ks ih =>
    rw [total] at ih ⊢
    by_cases hk : k' = k
    · simp [hk, ih, Nat.add_mul, Nat.add_comm]
    · simp [hk, ih]

/-! ## Queries -/

/-- `SELECT … GROUP BY key`: a result for each key that occurs. -/
def groups (key : α → κ) (aggregate : κ → List α → β) (rows : List α) : List β :=
  (rows.map key).dedup.map fun k => aggregate k (rows.filter fun a => key a = k)

/-- The loop `m[keyOf(r)] = r`. -/
def index (keyOf : β → κ) (results : List β) : GoMap κ β :=
  results.foldl (fun m r => m.insert (keyOf r) r) ∅

theorem index_concat (keyOf : β → κ) (results : List β) (r : β) :
    index keyOf (results ++ [r]) = (index keyOf results).insert (keyOf r) r := by
  rw [index, List.foldl_append]
  rfl

theorem lookup_index_of_notMem {keyOf : β → κ} {results : List β} {k : κ}
    (h : k ∉ results.map keyOf) : (index keyOf results).lookup k = none := by
  induction results using List.reverseRecOn with
  | nil => rfl
  | append_singleton results r ih =>
    rw [List.map_append, List.mem_append, not_or] at h
    have hne : k ≠ keyOf r := by simpa using h.2
    rw [index_concat, AList.lookup_insert_ne hne, ih h.1]

theorem lookup_index_of_mem {keyOf : β → κ} {results : List β} {r : β}
    (hnodup : (results.map keyOf).Nodup) (hr : r ∈ results) :
    (index keyOf results).lookup (keyOf r) = some r := by
  induction results using List.reverseRecOn with
  | nil => exact absurd hr List.not_mem_nil
  | append_singleton results r' ih =>
    rw [List.map_append, List.nodup_append] at hnodup
    obtain ⟨hnodup, -, hdisjoint⟩ := hnodup
    rw [index_concat]
    rcases List.mem_append.1 hr with hr | hr
    · have hne : keyOf r ≠ keyOf r' :=
        hdisjoint _ (List.mem_map_of_mem hr) _ (List.mem_singleton_self _)
      rw [AList.lookup_insert_ne hne, ih hnodup hr]
    · rw [List.mem_singleton.1 hr, AList.lookup_insert]

/-- The results of a query, in any order, indexed by their keys. -/
theorem lookup_index_groups {key : α → κ} {aggregate : κ → List α → β} {keyOf : β → κ}
    (hkey : ∀ k rows, keyOf (aggregate k rows) = k) {rows : List α} {results : List β}
    (hperm : results.Perm (groups key aggregate rows)) (k : κ) :
    (index keyOf results).lookup k =
      if k ∈ rows.map key then some (aggregate k (rows.filter fun a => key a = k)) else none := by
  have hkeys : (groups key aggregate rows).map keyOf = (rows.map key).dedup := by
    unfold groups
    rw [List.map_map]
    exact (List.map_congr_left fun k _ => hkey k _).trans (List.map_id _)
  have hresults : (results.map keyOf).Perm (rows.map key).dedup := hkeys ▸ hperm.map keyOf
  split
  · next hk =>
    have hmem : aggregate k (rows.filter fun a => key a = k) ∈ results :=
      hperm.mem_iff.2 (List.mem_map_of_mem (List.mem_dedup.2 hk))
    have hlookup := lookup_index_of_mem (hresults.nodup_iff.2 (List.nodup_dedup _)) hmem
    rwa [hkey] at hlookup
  · next hk =>
    exact lookup_index_of_notMem fun h => hk (List.mem_dedup.1 (hresults.mem_iff.1 h))

/-- Summing over each group, and then over the groups, is summing over the rows. -/
theorem sum_groups (key : α → κ) (w : α → Nat) {ks : List κ} (hnodup : ks.Nodup) {rows : List α}
    (h : ∀ a ∈ rows, key a ∈ ks) :
    (ks.map fun k => ((rows.filter fun a => key a = k).map w).sum).sum = (rows.map w).sum := by
  induction rows with
  | nil => simp
  | cons a rows ih =>
    rw [List.forall_mem_cons] at h
    have hsplit : ∀ k, (((a :: rows).filter fun a => key a = k).map w).sum =
        (if key a = k then w a else 0) + ((rows.filter fun a => key a = k).map w).sum := by
      intro k
      by_cases hk : key a = k <;> simp [hk]
    -- `a` is in one group
    have hone : (ks.map fun k => if key a = k then w a else 0).sum = w a := by
      rw [List.sum_map_eq_nsmul_single (key a) _ fun k hk _ => if_neg (Ne.symm hk),
        List.count_eq_one_of_mem hnodup h.1, if_pos rfl, one_nsmul]
    simp only [hsplit]
    rw [List.sum_map_add, hone, ih h.2, List.map_cons, List.sum_cons]

/-! ## Windows -/

/-- A number lies in the window that begins where rounding towards zero takes it. -/
theorem tdiv_mul_eq_iff {w b x : Int} (hw : 0 < w) (hb : w ∣ b) (hx : 0 ≤ x) :
    x.tdiv w * w = b ↔ b ≤ x ∧ x < b + w := by
  obtain ⟨q, rfl⟩ := hb
  rw [Int.tdiv_eq_ediv_of_nonneg hx, Int.mul_comm w q,
    Int.mul_eq_mul_right_iff (Int.ne_of_gt hw), Int.ediv_eq_iff_of_pos hw]

/-- Of the windows that begin at `t`, `t - w`, …, `t - (n - 1) * w`, one holds a number
    between the first beginning and the last end. -/
theorem existsUnique_window {w t x : Int} {n : Nat} (hw : 0 < w) (hlo : t - n * w + w ≤ x)
    (hhi : x < t + w) : ∃! i : Nat, i < n ∧ t - i * w ≤ x ∧ x < t - i * w + w := by
  -- `k` windows end after `x` and before the last end.
  have hdistance : 0 ≤ t + w - 1 - x := by omega
  have hnonneg : 0 ≤ w := Int.le_of_lt hw
  obtain ⟨k, hk⟩ := Int.eq_ofNat_of_zero_le (Int.ediv_nonneg hdistance hnonneg)
  obtain ⟨hle, hlt⟩ := (Int.ediv_eq_iff_of_pos hw).1 hk
  refine ⟨k, ⟨?_, by omega, by omega⟩, ?_⟩
  · by_contra hge
    have hmul : (n : Int) * w ≤ k * w := Int.mul_le_mul_of_nonneg_right (by omega) hnonneg
    omega
  · rintro i ⟨-, hi, hi'⟩
    have heq : (t + w - 1 - x) / w = i := (Int.ediv_eq_iff_of_pos hw).2 ⟨by omega, by omega⟩
    exact Int.ofNat_inj.1 (heq.symm.trans hk)

end Grouping
