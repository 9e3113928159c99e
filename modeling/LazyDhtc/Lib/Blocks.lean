-- SUMMARY: A list cut into blocks of one size, and a buffer that is filled with its blocks in any order.
import Mathlib.Data.List.Basic

/-!
# Blocks

A list is cut into blocks of `n` elements, of which the last may be shorter. A buffer of
the list's length, into which each block is copied at its own place, is the list once no
block is missing.
-/

namespace Blocks

variable {α : Type*}

/-- The block with index `i`. -/
def block (n : Nat) (xs : List α) (i : Nat) : List α := (xs.drop (n * i)).take n

/-- The number of blocks of a list of `size` elements. -/
def count (n size : Nat) : Nat := (size + (n - 1)) / n

theorem length_block (n : Nat) (xs : List α) (i : Nat) :
    (block n xs i).length = min n (xs.length - n * i) := by
  rw [block, List.length_take, List.length_drop]

theorem lt_count_iff {n : Nat} (hn : 0 < n) (size i : Nat) : i < count n size ↔ n * i < size := by
  rw [count, Nat.lt_iff_add_one_le, Nat.le_div_iff_mul_le hn, Nat.add_one_mul, Nat.mul_comm i]
  omega

/-- The buffer after a copy of the block with index `i`. -/
def put (n : Nat) (xs buf : List α) (i : Nat) : List α :=
  buf.take (n * i) ++ block n xs i ++ buf.drop (n * i + (block n xs i).length)

/-- The buffer has the blocks with the indices `done`. -/
structure Filled (n : Nat) (xs buf : List α) (done : List Nat) : Prop where
  length : buf.length = xs.length
  get : ∀ j, j / n ∈ done → buf[j]? = xs[j]?

theorem Filled.empty {n : Nat} {xs buf : List α} (h : buf.length = xs.length) :
    Filled n xs buf [] := ⟨h, fun _ hj => (List.not_mem_nil hj).elim⟩

/-- A copied block is there, and the others stay. -/
theorem Filled.put {n : Nat} (hn : 0 < n) {xs buf : List α} {done : List Nat}
    (h : Filled n xs buf done) {i : Nat} (hi : n * i < xs.length) :
    Filled n xs (put n xs buf i) (i :: done) := by
  have hlen := length_block n xs i
  have hbuf := h.length
  refine ⟨?_, fun j hj => ?_⟩
  · simp only [Blocks.put, List.length_append, List.length_take, List.length_drop]
    omega
  have hdiv : j / n = i ↔ n * i ≤ j ∧ j < n * i + n := by
    rw [Nat.div_eq_iff hn, Nat.mul_comm i]
    omega
  unfold Blocks.put
  by_cases hbefore : j < n * i
  · rw [List.append_assoc, List.getElem?_append_left (by rw [List.length_take]; omega),
      List.getElem?_take_of_lt hbefore]
    refine h.get j ((List.mem_cons.1 hj).resolve_left ?_)
    omega
  · rw [List.append_assoc, List.getElem?_append_right (by rw [List.length_take]; omega),
      List.length_take, Nat.min_eq_left (by omega)]
    by_cases hinside : j < n * i + n
    · by_cases hend : j < xs.length
      · rw [List.getElem?_append_left (by omega), block, List.getElem?_take_of_lt (by omega),
          List.getElem?_drop, Nat.add_sub_cancel' (by omega)]
      · rw [List.getElem?_append_right (by omega), List.getElem?_drop,
          List.getElem?_eq_none (by omega), List.getElem?_eq_none (by omega)]
    · rw [List.getElem?_append_right (by omega), List.getElem?_drop]
      have hother : j / n ∈ done := (List.mem_cons.1 hj).resolve_left (by omega)
      rw [← h.get j hother]
      by_cases hfull : n * i + n ≤ xs.length
      · exact congrArg (fun k => buf[k]?) (by omega)
      · rw [List.getElem?_eq_none (by omega), List.getElem?_eq_none (by omega)]

/-- A buffer with all blocks is the list. -/
theorem Filled.eq {n : Nat} (hn : 0 < n) {xs buf : List α} {done : List Nat}
    (h : Filled n xs buf done) (hall : ∀ i < count n xs.length, i ∈ done) : buf = xs := by
  refine List.ext_getElem? fun j => ?_
  by_cases hj : j < xs.length
  · refine h.get j (hall _ ((lt_count_iff hn _ _).2 ?_))
    exact Nat.lt_of_le_of_lt (Nat.mul_div_le j n) hj
  · rw [List.getElem?_eq_none (by rw [h.length]; omega), List.getElem?_eq_none (by omega)]

end Blocks
