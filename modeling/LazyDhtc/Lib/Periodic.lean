-- SUMMARY: Windows that open and close once in every period: where a time lies in the period, and when the window changes next.
import Mathlib.Data.Int.ModEq

/-!
# Periodic windows

A window opens at the times congruent to `start` and closes at those congruent to `stop`,
modulo a period. It is open for `length` after each opening, and between two boundaries
nothing changes.
-/

namespace Periodic

/-- A window of a period of length `period`. -/
structure Window where
  period : Int
  start : Int
  stop : Int
  pos : 0 < period
  distinct : ¬ start ≡ stop [ZMOD period]

namespace Window

variable (w : Window)

/-- The time since the window opened last. -/
def elapsed (t : Int) : Int := (t - w.start) % w.period

/-- For how long the window is open. -/
def length : Int := w.elapsed w.stop

def Open (t : Int) : Prop := w.elapsed t < w.length

instance (t : Int) : Decidable (w.Open t) := inferInstanceAs (Decidable (_ < _))

/-- The window opens or closes. -/
def Boundary (t : Int) : Prop := t ≡ w.start [ZMOD w.period] ∨ t ≡ w.stop [ZMOD w.period]

/-- `u` is the first boundary after `t`. -/
def FirstAfter (t u : Int) : Prop :=
  t < u ∧ w.Boundary u ∧ ∀ v, t < v → v < u → ¬ w.Boundary v

/-- When the window opens or closes next. -/
def next (t : Int) : Int := if w.Open t then t + (w.length - w.elapsed t) else
  t + (w.period - w.elapsed t)

/-! ## Within one period -/

theorem elapsed_nonneg (t : Int) : 0 ≤ w.elapsed t := Int.emod_nonneg _ w.pos.ne'

theorem elapsed_lt (t : Int) : w.elapsed t < w.period := Int.emod_lt_of_pos _ w.pos

theorem elapsed_add {t k : Int} (hk : 0 ≤ k) (h : w.elapsed t + k < w.period) :
    w.elapsed (t + k) = w.elapsed t + k := by
  have hnonneg := w.elapsed_nonneg t
  unfold elapsed at *
  rw [show t + k - w.start = (t - w.start) + k by omega, ← Int.emod_add_emod]
  exact Int.emod_eq_of_lt (Int.add_nonneg hnonneg hk) h

theorem elapsed_wrap (t : Int) : w.elapsed (t + (w.period - w.elapsed t)) = 0 := by
  unfold elapsed
  rw [show t + (w.period - (t - w.start) % w.period) - w.start =
    (t - w.start) - (t - w.start) % w.period + w.period by omega, Int.add_emod_right]
  exact Int.emod_eq_zero_of_dvd (Int.dvd_self_sub_emod)

theorem length_lt : w.length < w.period := w.elapsed_lt w.stop

theorem boundary_iff {t : Int} : w.Boundary t ↔ w.elapsed t = 0 ∨ w.elapsed t = w.length := by
  have hstart : t ≡ w.start [ZMOD w.period] ↔ w.elapsed t = 0 := by
    rw [Int.modEq_comm, Int.modEq_iff_dvd, Int.dvd_iff_emod_eq_zero]
    rfl
  have hstop : t ≡ w.stop [ZMOD w.period] ↔ w.elapsed t = w.length :=
    ⟨fun h => h.sub_right w.start, fun h => Int.ModEq.add_right_cancel' (-w.start) h⟩
  unfold Boundary
  rw [hstart, hstop]

/-! ## Until the next boundary -/

theorem lt_next (t : Int) : t < w.next t := by
  have hlt := w.elapsed_lt t
  unfold next
  split
  · next hopen =>
    unfold Open at hopen
    omega
  · omega

/-- Before the next boundary time only passes within the period. -/
theorem elapsed_before {t u : Int} (htu : t ≤ u) (hu : u < w.next t) :
    w.elapsed u = w.elapsed t + (u - t) := by
  have hlength := w.length_lt
  have hbound : w.elapsed t + (u - t) < w.period := by
    unfold next at hu
    split at hu
    · omega
    · omega
  have hadd := w.elapsed_add (Int.sub_nonneg_of_le htu) hbound
  rwa [show t + (u - t) = u by omega] at hadd

theorem open_before {t u : Int} (htu : t ≤ u) (hu : u < w.next t) : w.Open u ↔ w.Open t := by
  have helapsed := w.elapsed_before htu hu
  unfold next at hu
  split at hu
  · next hopen =>
    refine iff_of_true ?_ hopen
    unfold Open
    omega
  · next hclosed =>
    refine iff_of_false ?_ hclosed
    unfold Open at *
    omega

theorem next_before {t u : Int} (htu : t ≤ u) (hu : u < w.next t) : w.next u = w.next t := by
  have helapsed := w.elapsed_before htu hu
  have hopen := w.open_before htu hu
  unfold next
  by_cases h : w.Open t
  · rw [if_pos h, if_pos (hopen.2 h)]
    omega
  · rw [if_neg h, if_neg (mt hopen.1 h)]
    omega

theorem elapsed_next (t : Int) : w.elapsed (w.next t) = if w.Open t then w.length else 0 := by
  unfold next
  split
  · next hopen =>
    unfold Open at hopen
    have hlength := w.length_lt
    rw [w.elapsed_add (by omega) (by omega)]
    omega
  · exact w.elapsed_wrap t

theorem length_pos : 0 < w.length := by
  have hnonneg := w.elapsed_nonneg w.stop
  have hne : w.length ≠ 0 := fun hzero => w.distinct <|
    Int.modEq_iff_dvd.2 (Int.dvd_of_emod_eq_zero hzero)
  exact lt_of_le_of_ne hnonneg hne.symm

/-- The window changes at the next boundary. -/
theorem open_next (t : Int) : w.Open (w.next t) ↔ ¬ w.Open t := by
  have hnext := w.elapsed_next t
  have hlength := w.length_pos
  by_cases hopen : w.Open t
  · rw [if_pos hopen] at hnext
    refine iff_of_false ?_ (not_not.2 hopen)
    unfold Open
    rw [hnext]
    exact lt_irrefl _
  · rw [if_neg hopen] at hnext
    refine iff_of_true ?_ hopen
    unfold Open
    rwa [hnext]

theorem next_le (t : Int) : w.next t ≤ t + w.period := by
  have hnonneg := w.elapsed_nonneg t
  have hlength := w.length_lt
  unfold next
  split
  · omega
  · omega

theorem boundary_next (t : Int) : w.Boundary (w.next t) := by
  have hnext := w.elapsed_next t
  rw [boundary_iff]
  split at hnext
  · exact .inr hnext
  · exact .inl hnext

theorem not_boundary_before {t u : Int} (htu : t < u) (hu : u < w.next t) : ¬ w.Boundary u := by
  have helapsed := w.elapsed_before htu.le hu
  have hnonneg := w.elapsed_nonneg t
  have hopen := w.open_before htu.le hu
  rw [boundary_iff]
  rintro (hzero | hlength)
  · omega
  · unfold Open at hopen
    omega

theorem firstAfter_iff {t u : Int} : w.FirstAfter t u ↔ u = w.next t := by
  constructor
  · intro ⟨htu, hu, hfirst⟩
    rcases lt_trichotomy u (w.next t) with hlt | heq | hgt
    · exact absurd hu (w.not_boundary_before htu hlt)
    · exact heq
    · exact absurd (w.boundary_next t) (hfirst _ (w.lt_next t) hgt)
  · rintro rfl
    exact ⟨w.lt_next t, w.boundary_next t, fun v hv hlt => w.not_boundary_before hv hlt⟩

end Window

end Periodic
