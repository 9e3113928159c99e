-- SUMMARY: Sums of 64-bit words, signed and unsigned, and the quotient, rounded up, of a sum that may have wrapped around.
import Mathlib.Algebra.Order.Floor.Div
import Mathlib.Algebra.Order.BigOperators.Group.List

/-!
# Wrapping sums

A sum of signed words is the balanced residue of the sum of their values, one of unsigned
words its residue. Neither says that nothing was lost, but a quotient that comes out
positive says it of the signed sum in its numerator.
-/

namespace Wrapping

/-! ## Sums -/

theorem toInt_foldl_add (ws : List Int64) (w : Int64) :
    (ws.foldl (· + ·) w).toInt = (w.toInt + (ws.map Int64.toInt).sum).bmod (2 ^ 64) := by
  induction ws generalizing w with
  | nil =>
    rw [List.foldl_nil, List.map_nil, List.sum_nil, Int.add_zero]
    exact (Int64.toInt_bmod w).symm
  | cons v ws ih =>
    rw [List.foldl_cons, ih, Int64.toInt_add, Int.bmod_add_bmod, Int.add_assoc, List.map_cons,
      List.sum_cons]

/-- A word that is not negative keeps its value as an unsigned one. -/
theorem toNat_toUInt64 {w : Int64} (h : 0 ≤ w.toInt) : (w.toUInt64.toNat : Int) = w.toInt := by
  rw [Int64.toNat_toUInt64_of_le (Int64.le_iff_toInt_le.2 h)]
  exact Int.toNat_of_nonneg h

theorem sum_toInt_nonneg {ws : List Int64} (h : ∀ w ∈ ws, 0 ≤ w.toInt) :
    0 ≤ (ws.map Int64.toInt).sum := by
  refine List.sum_nonneg fun x hx => ?_
  obtain ⟨w, hw, rfl⟩ := List.mem_map.1 hx
  exact h w hw

/-! ## Quotients -/

/-- The numerator `total + size - 1` may wrap around, but then it is too small for a
    positive quotient. -/
theorem eq_ceilDiv_of_tdiv {total size n : Nat} (htotal : total < 2 ^ 64) (hsize : 0 < size)
    (hn : 0 < n) (h : ((total + size - 1 : Int).bmod (2 ^ 64)).tdiv size = n) :
    n = total ⌈/⌉ size := by
  have hrange := Int.bmod_lt (x := (total + size - 1 : Int)) (m := 2 ^ 64) (by decide)
  have hmod := Int.bdiv_add_bmod (total + size - 1 : Int) (2 ^ 64)
  generalize (total + size - 1 : Int).bmod (2 ^ 64) = wrapped at h hrange hmod
  generalize (total + size - 1 : Int).bdiv (2 ^ 64) = turns at hmod
  have hle : (size : Int) ≤ wrapped := by
    by_contra hlt
    have hquot : wrapped.tdiv size ≤ (size - 1 : Int).tdiv size :=
      Int.tdiv_le_tdiv (by omega) (by omega)
    rw [Int.tdiv_eq_zero_of_lt (by omega : (0 : Int) ≤ size - 1) (by omega), h] at hquot
    omega
  have hturns : turns = 0 := by omega
  have hwrapped : wrapped = (total + size - 1 : Nat) := by omega
  rw [hwrapped, Int.tdiv_eq_ediv_of_nonneg (by omega)] at h
  rw [Nat.ceilDiv_eq_add_pred_div]
  exact_mod_cast h.symm

end Wrapping
