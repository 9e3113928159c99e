-- SUMMARY: Loops that may not end: the state at the head of a loop after some iterations, and the measures and probes by which a loop ends.
import Mathlib.Data.Finset.Card
import Mathlib.Data.Finset.Range

/-!
# Loops

A loop without a bound is run iteration by iteration. An iteration comes back to the head
of the loop or leaves it; what it depends on besides the state, such as an answer from
outside, is the body's first argument: the number of the iteration.
-/

namespace Loop

variable {σ : Type*}

/-- Where a loop stands: at its head, or behind it. -/
inductive Position (σ : Type*) where
  | head (s : σ)
  | left (s : σ)

/-- The position after some iterations. -/
def run (body : Nat → σ → Position σ) (s : σ) : Nat → Position σ
  | 0 => .head s
  | n + 1 =>
    match run body s n with
    | .head s => body n s
    | .left s => .left s

variable {body : Nat → σ → Position σ} {s : σ}

theorem run_succ_of_head {n : Nat} {t : σ} (h : run body s n = .head t) :
    run body s (n + 1) = body n t := by
  rw [run, h]

theorem run_succ_of_left {n : Nat} {t : σ} (h : run body s n = .left t) :
    run body s (n + 1) = .left t := by
  rw [run, h]

/-- A loop that is at its head has been there before each of its iterations. -/
theorem head_of_head_succ {n : Nat} {u : σ} (h : run body s (n + 1) = .head u) :
    ∃ t, run body s n = .head t ∧ body n t = .head u := by
  cases hpos : run body s n with
  | head t => exact ⟨t, rfl, (run_succ_of_head hpos).symm.trans h⟩
  | left t =>
    rw [run_succ_of_left hpos] at h
    cases h

theorem head_of_le {m n : Nat} {u : σ} (h : run body s n = .head u) (hm : m ≤ n) :
    ∃ t, run body s m = .head t := by
  induction n generalizing u with
  | zero => exact ⟨u, by rwa [Nat.le_zero.1 hm]⟩
  | succ n ih =>
    rcases Nat.le_succ_iff.1 hm with hm | rfl
    · obtain ⟨t, ht, -⟩ := head_of_head_succ h
      exact ih ht hm
    · exact ⟨u, h⟩

/-- Every iteration from a state with a positive measure lowers the measure or leaves
    the loop. -/
def Progresses (body : Nat → σ → Position σ) (μ : σ → Nat) (s : σ) : Prop :=
  ∀ n t u, run body s n = .head t → 0 < μ t → body n t = .head u → μ u < μ t

/-- A loop that makes progress is left, or its measure is used up, after at most as many
    iterations as the measure says. -/
theorem Progresses.ends {μ : σ → Nat} (h : Progresses body μ s) :
    ∃ n ≤ μ s, (∃ t, run body s n = .left t) ∨ ∃ t, run body s n = .head t ∧ μ t = 0 := by
  have hrun : ∀ n, (∃ m ≤ n, ∃ t, run body s m = .left t) ∨
      (∃ m ≤ n, ∃ t, run body s m = .head t ∧ μ t = 0) ∨
      ∃ t, run body s n = .head t ∧ μ t + n ≤ μ s := by
    intro n
    induction n with
    | zero => exact .inr (.inr ⟨s, rfl, Nat.le_refl _⟩)
    | succ n ih =>
      rcases ih with ⟨m, hm, hleft⟩ | ⟨m, hm, hzero⟩ | ⟨t, ht, hle⟩
      · exact .inl ⟨m, Nat.le_succ_of_le hm, hleft⟩
      · exact .inr (.inl ⟨m, Nat.le_succ_of_le hm, hzero⟩)
      · by_cases hpos : 0 < μ t
        · cases hbody : body n t with
          | left u => exact .inl ⟨n + 1, Nat.le_refl _, u, (run_succ_of_head ht).trans hbody⟩
          | head u =>
            have hlt := h n t u ht hpos hbody
            exact .inr (.inr ⟨u, (run_succ_of_head ht).trans hbody, by omega⟩)
        · exact .inr (.inl ⟨n, Nat.le_succ n, t, ht, Nat.eq_zero_of_not_pos hpos⟩)
  rcases hrun (μ s) with ⟨m, hm, hleft⟩ | ⟨m, hm, hzero⟩ | ⟨t, ht, hle⟩
  · exact ⟨m, hm, .inl hleft⟩
  · exact ⟨m, hm, .inr hzero⟩
  · exact ⟨μ s, Nat.le_refl _, .inr ⟨t, ht, by omega⟩⟩

/-- A loop that is back where it was after each iteration never ends. -/
theorem run_const {t : σ} (h : ∀ n, body n t = .head t) (n : Nat) : run body t n = .head t := by
  induction n with
  | zero => rfl
  | succ n ih => rw [run_succ_of_head ih, h]

/-- A loop that looks for something outside a finite set, and never at the same place twice
    before it has looked at more places than the set has, is left after at most one iteration
    more than that. -/
theorem leaves_of_probes {κ : Type*} {used : Finset κ} {probe : Nat → κ}
    (hused : ∀ n u, run body s (n + 1) = .head u → probe n ∈ used)
    (hinj : Set.InjOn probe (Set.Iic used.card)) :
    ∃ n ≤ used.card, ∃ t u, run body s n = .head t ∧ body n t = .left u := by
  by_contra hnone
  -- otherwise every one of these iterations comes back to the head
  have hhead : ∀ n ≤ used.card + 1, ∃ t, run body s n = .head t := by
    intro n
    induction n with
    | zero => exact fun _ => ⟨s, rfl⟩
    | succ n ih =>
      intro hn
      obtain ⟨t, ht⟩ := ih (Nat.le_of_succ_le hn)
      rw [run_succ_of_head ht]
      cases hbody : body n t with
      | head u => exact ⟨u, rfl⟩
      | left u => exact (hnone ⟨n, Nat.le_of_succ_le_succ hn, t, u, ht, hbody⟩).elim
  have hmaps : ∀ n ∈ Finset.range (used.card + 1), probe n ∈ used := by
    intro n hn
    obtain ⟨u, hu⟩ := hhead (n + 1) (Nat.succ_le_of_lt (Finset.mem_range.1 hn))
    exact hused n u hu
  have hinjOn : Set.InjOn probe (Finset.range (used.card + 1)) := by
    intro i hi j hj hij
    rw [Finset.mem_coe, Finset.mem_range, Nat.lt_succ_iff] at hi hj
    exact hinj hi hj hij
  have hcard := Finset.card_le_card_of_injOn probe hmaps hinjOn
  rw [Finset.card_range] at hcard
  omega

end Loop
