-- SUMMARY: Runs of a transition system with their actions, and unwinding: an observer sees of a run what it would see of the run without the actions that are hidden from it.
import LazyDhtc.Lib.Transition

/-!
# Unwinding

An observer sees a view of each state, and some of the actions. If a hidden action leaves
the view as it is, and the view decides what an action does that is seen, then the hidden
actions of a run can be erased: what is left is a run with the same view at its end.
-/

namespace Transition

namespace System

variable {σ α ν : Type*} {sys : System σ α}

/-! ## Runs with their actions -/

/-- A run from one state to another that takes these actions, in this order. -/
inductive Run (sys : System σ α) : σ → List α → σ → Prop where
  | nil {s : σ} : Run sys s [] s
  | cons {s t u : σ} {a : α} {as : List α} : sys.step s a t → Run sys t as u →
      Run sys s (a :: as) u

theorem Run.single {s t : σ} {a : α} (h : sys.step s a t) : sys.Run s [a] t := .cons h .nil

theorem Run.append {s t u : σ} {as bs : List α} (h : sys.Run s as t) (h' : sys.Run t bs u) :
    sys.Run s (as ++ bs) u := by
  induction h with
  | nil => exact h'
  | cons hstep _ ih => exact .cons hstep (ih h')

theorem Run.reachable {s t : σ} {as : List α} (h : sys.Run s as t) (hs : sys.Reachable s) :
    sys.Reachable t := by
  induction h with
  | nil => exact hs
  | cons hstep _ ih => exact ih (hs.step hstep)

/-- A property of states that every step preserves holds at the end of a run. -/
theorem Run.preserves {P : σ → Prop} (hstep : ∀ s a s', P s → sys.step s a s' → P s') {s t : σ}
    {as : List α} (h : sys.Run s as t) (hs : P s) : P t := by
  induction h with
  | nil => exact hs
  | cons ha _ ih => exact ih (hstep _ _ _ hs ha)

/-- So does one that only the steps with some of the actions preserve, if no others are taken. -/
theorem Run.preserves_along {P : σ → Prop} {ok : α → Prop}
    (hstep : ∀ s a s', P s → ok a → sys.step s a s' → P s') {s t : σ} {as : List α}
    (h : sys.Run s as t) (hok : ∀ a ∈ as, ok a) (hs : P s) : P t := by
  induction h with
  | nil => exact hs
  | cons ha _ ih =>
    obtain ⟨hfirst, hrest⟩ := List.forall_mem_cons.1 hok
    exact ih hrest (hstep _ _ _ hs hfirst ha)

theorem Run.restrict_mono {ok ok' : σ → α → Prop} (hok : ∀ s a, ok s a → ok' s a) {s t : σ}
    {as : List α} (h : (sys.restrict ok).Run s as t) : (sys.restrict ok').Run s as t := by
  induction h with
  | nil => exact .nil
  | cons ha _ ih => exact .cons ⟨ha.1, hok _ _ ha.2⟩ ih

theorem Run.split {s u : σ} {as bs : List α} (h : sys.Run s (as ++ bs) u) :
    ∃ t, sys.Run s as t ∧ sys.Run t bs u := by
  induction as generalizing s with
  | nil => exact ⟨s, .nil, h⟩
  | cons a as ih =>
    cases h with
    | cons hstep hrest =>
      obtain ⟨t, has, hbs⟩ := ih hrest
      exact ⟨t, .cons hstep has, hbs⟩

/-! ## Erasing what is hidden -/

/-- What an observer with this view has to go by. -/
structure Unwinds (sys : System σ α) (hidden : α → Prop) (view : σ → ν) : Prop where
  silent : ∀ s a s', sys.step s a s' → hidden a → view s' = view s
  decides : ∀ s t a s', view t = view s → sys.step s a s' → ¬ hidden a →
    ∃ t', sys.step t a t' ∧ view t' = view s'

theorem Unwinds.erase {hidden : α → Prop} [DecidablePred hidden] {view : σ → ν}
    (hsys : sys.Unwinds hidden view) {s s' : σ} {as : List α} (hrun : sys.Run s as s') {t : σ}
    (hview : view t = view s) :
    ∃ t', sys.Run t (as.filter fun a => ¬ hidden a) t' ∧ view t' = view s' := by
  induction hrun generalizing t with
  | nil => exact ⟨t, .nil, hview⟩
  | @cons s u s' a as hstep _ ih =>
    by_cases ha : hidden a
    · rw [List.filter_cons_of_neg (by simpa using ha)]
      exact ih (hview.trans (hsys.silent s a u hstep ha).symm)
    · obtain ⟨v, hv, hvu⟩ := hsys.decides s t a u hview hstep ha
      obtain ⟨t', hrun', ht'⟩ := ih hvu
      rw [List.filter_cons_of_pos (by simpa using ha)]
      exact ⟨t', .cons hv hrun', ht'⟩

end System

end Transition
