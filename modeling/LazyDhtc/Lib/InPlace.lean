-- SUMMARY: Filtering a slice in place: the loop that writes the kept elements over the ones it has read computes the filter.
import Mathlib.Data.List.Basic
import Mathlib.Logic.Function.Iterate

/-!
# Filtering in place

`kept := s[:0]`, and a loop over `s` that appends to `kept`: both slices share one array,
so that each append writes over an element of `s`. It never writes beyond the element that
it has read last.
-/

namespace InPlace

variable {α : Type*}

/-- The array, the number of elements that are read and kept, and those dropped. -/
structure Loop (α : Type*) where
  array : List α
  read : Nat
  kept : Nat
  dropped : List α

/-- One round of the loop. -/
def Loop.step (keep : α → Bool) (s : Loop α) : Loop α :=
  match s.array[s.read]? with
  | none => s
  | some a =>
    if keep a then { s with array := s.array.set s.kept a, read := s.read + 1, kept := s.kept + 1 }
    else { s with read := s.read + 1, dropped := s.dropped ++ [a] }

/-- The loop over the first `n` elements of an array. -/
def filterLoop (keep : α → Bool) (array : List α) (n : Nat) : Loop α :=
  (Loop.step keep)^[n] ⟨array, 0, 0, []⟩

/-- What the loop has done after `n` rounds, and that it has not touched the rest. -/
structure Filtered (keep : α → Bool) (array : List α) (n : Nat) (s : Loop α) : Prop where
  length : s.array.length = array.length
  read : s.read = n
  kept_le : s.kept ≤ n
  kept : s.array.take s.kept = (array.take n).filter keep
  dropped : s.dropped = (array.take n).filter fun a => !keep a
  rest : s.array.drop n = array.drop n

theorem filterLoop_filtered (keep : α → Bool) {array : List α} {n : Nat} (hn : n ≤ array.length) :
    Filtered keep array n (filterLoop keep array n) := by
  induction n with
  | zero => exact ⟨rfl, rfl, Nat.le_refl 0, rfl, rfl, rfl⟩
  | succ n ih =>
    have hlt : n < array.length := hn
    obtain ⟨hlength, hread, hle, hkept, hdropped, hrest⟩ := ih (Nat.le_of_lt hlt)
    unfold filterLoop at hlength hread hle hkept hdropped hrest ⊢
    rw [Function.iterate_succ_apply']
    generalize (Loop.step keep)^[n] ⟨array, 0, 0, []⟩ = s at *
    -- The element that is read next has not been written over.
    have hget : s.array[s.read]? = some array[n] := by
      have hhead := congrArg (fun l => l[0]?) hrest
      simp only [List.getElem?_drop, Nat.add_zero] at hhead
      rw [hread, hhead, List.getElem?_eq_getElem hlt]
    have htake : array.take (n + 1) = array.take n ++ [array[n]] := by
      rw [List.take_add_one, List.getElem?_eq_getElem hlt]
      rfl
    have hlonger : s.kept < s.array.length := by omega
    have hrest' : s.array.drop (n + 1) = array.drop (n + 1) := by
      rw [← List.drop_drop, hrest, List.drop_drop]
    unfold Loop.step
    rw [hget]
    simp only
    split_ifs with hkeep
    · refine ⟨?_, ?_, ?_, ?_, ?_, ?_⟩
      · rw [List.length_set, hlength]
      · rw [hread]
      · exact Nat.succ_le_succ hle
      · rw [htake, List.filter_append, List.filter_singleton, hkeep, ← hkept, List.take_add_one,
          List.getElem?_set_self hlonger, List.take_set_of_le (Nat.le_refl _)]
        rfl
      · rw [htake, List.filter_append, List.filter_singleton, hkeep, ← hdropped]
        simp
      · rw [List.drop_set_of_lt (Nat.lt_succ_of_le hle)]
        exact hrest'
    · refine ⟨hlength, ?_, Nat.le_succ_of_le hle, ?_, ?_, ?_⟩
      · rw [hread]
      · rw [htake, List.filter_append, List.filter_singleton, hkept]
        simp [hkeep]
      · rw [htake, List.filter_append, List.filter_singleton, hdropped]
        simp [hkeep]
      · exact hrest'

end InPlace
