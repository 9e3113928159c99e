-- SUMMARY: Labelled transition systems: reachability, invariants, restriction to steps that meet a condition, and projections; lists of parts; sequences of calls.
import Mathlib.Logic.Relation

/-!
# Transition systems

A system is a set of initial states and a labelled step relation. Everything the
development says about "every interleaving" is a statement about the reachable
states of such a system.
-/

namespace Transition

/-- A labelled transition system over states `σ` and labels `α`. -/
structure System (σ : Type*) (α : Type*) where
  init : σ → Prop
  step : σ → α → σ → Prop

namespace System

variable {σ τ α β : Type*}

/-- One step, whatever its label. -/
def Next (sys : System σ α) (s s' : σ) : Prop := ∃ a, sys.step s a s'

/-- Any number of steps. -/
def Steps (sys : System σ α) : σ → σ → Prop := Relation.ReflTransGen sys.Next

/-- The states that a run from an initial state can end in. -/
inductive Reachable (sys : System σ α) : σ → Prop where
  | init {s : σ} : sys.init s → Reachable sys s
  | step {s s' : σ} {a : α} : Reachable sys s → sys.step s a s' → Reachable sys s'

/-! ## Runs -/

theorem Steps.refl {sys : System σ α} (s : σ) : sys.Steps s s := Relation.ReflTransGen.refl

theorem Steps.tail {sys : System σ α} {s t u : σ} {a : α}
    (h : sys.Steps s t) (hstep : sys.step t a u) : sys.Steps s u :=
  Relation.ReflTransGen.tail h ⟨a, hstep⟩

theorem Steps.head {sys : System σ α} {s t u : σ} {a : α}
    (hstep : sys.step s a t) (h : sys.Steps t u) : sys.Steps s u :=
  Relation.ReflTransGen.head ⟨a, hstep⟩ h

theorem Steps.single {sys : System σ α} {s t : σ} {a : α} (hstep : sys.step s a t) :
    sys.Steps s t := (Steps.refl s).tail hstep

theorem Steps.trans {sys : System σ α} {s t u : σ}
    (h₁ : sys.Steps s t) (h₂ : sys.Steps t u) : sys.Steps s u :=
  Relation.ReflTransGen.trans h₁ h₂

theorem Reachable.steps {sys : System σ α} {s t : σ}
    (hs : sys.Reachable s) (h : sys.Steps s t) : sys.Reachable t := by
  induction h with
  | refl => exact hs
  | tail _ hstep ih =>
    obtain ⟨a, ha⟩ := hstep
    exact ih.step ha

/-- A map that sends each step of one system to a step of another sends runs to runs. -/
theorem Steps.map {sys : System σ α} {sys' : System τ β} (f : σ → τ)
    (hstep : ∀ s a s', sys.step s a s' → ∃ b, sys'.step (f s) b (f s')) {s t : σ}
    (h : sys.Steps s t) : sys'.Steps (f s) (f t) := by
  induction h with
  | refl => exact .refl _
  | tail _ hnext ih =>
    obtain ⟨a, ha⟩ := hnext
    obtain ⟨b, hb⟩ := hstep _ a _ ha
    exact ih.tail hb

/-- A property that every step preserves holds at the end of a run. -/
theorem Steps.preserves {sys : System σ α} {P : σ → Prop}
    (hstep : ∀ s a s', P s → sys.step s a s' → P s') {s t : σ}
    (h : sys.Steps s t) (hs : P s) : P t := by
  induction h with
  | refl => exact hs
  | tail _ hnext ih =>
    obtain ⟨a, ha⟩ := hnext
    exact hstep _ a _ ih ha

/-! ## Invariants -/

/-- A property that holds initially and that every step from a reachable state
    preserves holds in every reachable state. -/
theorem invariant {sys : System σ α} {P : σ → Prop}
    (hinit : ∀ s, sys.init s → P s)
    (hstep : ∀ s a s', sys.Reachable s → P s → sys.step s a s' → P s') {s : σ}
    (h : sys.Reachable s) : P s := by
  induction h with
  | init hs => exact hinit _ hs
  | step hr ha ih => exact hstep _ _ _ hr ih ha

/-! ## Traces -/

/-- The states up to `n` are those of a run, one after the other. -/
structure Trace (sys : System σ α) (run : Nat → σ) (n : Nat) : Prop where
  init : sys.init (run 0)
  next : ∀ i < n, sys.Next (run i) (run (i + 1))

/-- A property of times and states that holds at the start and that every step preserves. -/
theorem Trace.invariant {sys : System σ α} {run : Nat → σ} {n : Nat} {P : Nat → σ → Prop}
    (h : sys.Trace run n) (hinit : P 0 (run 0))
    (hstep : ∀ i a, P i (run i) → sys.step (run i) a (run (i + 1)) → P (i + 1) (run (i + 1)))
    {i : Nat} (hi : i ≤ n) : P i (run i) := by
  induction i with
  | zero => exact hinit
  | succ i ih =>
    obtain ⟨a, ha⟩ := h.next i hi
    exact hstep i a (ih (Nat.le_of_succ_le hi)) ha

theorem Trace.reachable {sys : System σ α} {run : Nat → σ} {n : Nat} (h : sys.Trace run n) {i : Nat}
    (hi : i ≤ n) : sys.Reachable (run i) :=
  h.invariant (P := fun _ s => sys.Reachable s) (.init h.init) (fun _ _ hr ha => hr.step ha) hi

/-- Every reachable state is the last one of a run. -/
theorem Reachable.trace {sys : System σ α} {s : σ} (h : sys.Reachable s) :
    ∃ run n, sys.Trace run n ∧ run n = s := by
  induction h with
  | init hs => exact ⟨fun _ => _, 0, ⟨hs, fun _ hi => absurd hi (Nat.not_lt_zero _)⟩, rfl⟩
  | @step s s' a _ ha ih =>
    obtain ⟨run, n, hrun, rfl⟩ := ih
    have hlast : ¬ n + 1 ≤ n := Nat.not_succ_le_self n
    refine ⟨fun i => if i ≤ n then run i else s', n + 1, ⟨?_, ?_⟩, if_neg hlast⟩
    · simpa using hrun.init
    · intro i hi
      rcases Nat.lt_or_eq_of_le (Nat.le_of_lt_succ hi) with hlt | rfl
      · simpa [Nat.le_of_lt hlt, Nat.succ_le_of_lt hlt] using hrun.next i hlt
      · simpa [hlast] using ⟨a, ha⟩

/-! ## Restriction -/

/-- The runs of `sys` all of whose steps meet the condition `ok`. -/
def restrict (sys : System σ α) (ok : σ → α → Prop) : System σ α where
  init := sys.init
  step s a s' := sys.step s a s' ∧ ok s a

theorem Reachable.of_restrict {sys : System σ α} {ok : σ → α → Prop} {s : σ}
    (h : (sys.restrict ok).Reachable s) : sys.Reachable s := by
  induction h with
  | init hs => exact .init hs
  | step _ ha ih => exact ih.step ha.1

theorem Reachable.restrict_mono {sys : System σ α} {ok ok' : σ → α → Prop} {s : σ}
    (hok : ∀ s a, ok s a → ok' s a) (h : (sys.restrict ok).Reachable s) :
    (sys.restrict ok').Reachable s := by
  induction h with
  | init hs => exact .init hs
  | step _ ha ih => exact ih.step ⟨ha.1, hok _ _ ha.2⟩

theorem Steps.of_restrict {sys : System σ α} {ok : σ → α → Prop} {s t : σ}
    (h : (sys.restrict ok).Steps s t) : sys.Steps s t := by
  refine h.map id ?_
  intro s a s' ha
  exact ⟨a, ha.1⟩

/-! ## Projection -/

/-- `f` projects `sys` onto `spec`: each step of `sys` is a run of `spec`. -/
structure Projects (sys : System σ α) (spec : System τ β) (f : σ → τ) : Prop where
  init : ∀ s, sys.init s → spec.init (f s)
  step : ∀ s a s', sys.step s a s' → spec.Steps (f s) (f s')

theorem Projects.reachable {sys : System σ α} {spec : System τ β} {f : σ → τ}
    (hf : sys.Projects spec f) {s : σ} (h : sys.Reachable s) : spec.Reachable (f s) := by
  induction h with
  | init hs => exact .init (hf.init _ hs)
  | step _ ha ih => exact ih.steps (hf.step _ _ _ ha)

end System

/-! ## Lists of parts, one of which steps -/

section Parts

variable {α : Type*} {xs pre post : List α} {x y z : α} {k : Nat}

theorem getElem?_replace (h : xs = pre ++ x :: post) (hz : (pre ++ y :: post)[k]? = some z) :
    (k = pre.length ∧ z = y) ∨ (k ≠ pre.length ∧ xs[k]? = some z) := by
  subst h
  rcases Nat.lt_trichotomy k pre.length with hlt | rfl | hgt
  · refine .inr ⟨Nat.ne_of_lt hlt, ?_⟩
    rw [List.getElem?_append_left hlt] at hz ⊢
    exact hz
  · refine .inl ⟨rfl, ?_⟩
    simpa using hz.symm
  · refine .inr ⟨Nat.ne_of_gt hgt, ?_⟩
    obtain ⟨d, rfl⟩ := Nat.exists_eq_add_of_lt hgt
    rw [List.getElem?_append_right (by omega)] at hz ⊢
    rwa [show pre.length + d + 1 - pre.length = d + 1 by omega] at hz ⊢

theorem getElem?_snoc (hz : (xs ++ [x])[k]? = some z) :
    (k = xs.length ∧ z = x) ∨ (k ≠ xs.length ∧ xs[k]? = some z) := by
  obtain ⟨rfl, rfl⟩ | ⟨hne, hold⟩ := @getElem?_replace α (xs ++ [x]) xs [] x x z k rfl hz
  · exact .inl ⟨rfl, rfl⟩
  · refine .inr ⟨hne, ?_⟩
    have hlt : k < xs.length + 1 := by simpa using (List.getElem?_eq_some_iff.1 hold).1
    rwa [List.getElem?_append_left (by omega)] at hold

end Parts

/-! ## Sequences of calls -/

section Along

variable {σ α : Type*} {step : σ → α → σ}

/-- Every call of a sequence, made in the state that the calls before it have led to, has
    the property `P`. -/
def Along (step : σ → α → σ) (P : σ → α → Prop) : σ → List α → Prop
  | _, [] => True
  | s, a :: as => P s a ∧ Along step P (step s a) as

/-- A property that follows from another one while an invariant holds. -/
theorem Along.imp {I : σ → Prop} {P Q : σ → α → Prop}
    (hstep : ∀ s a, I s → P s a → Q s a ∧ I (step s a)) {s : σ} (hs : I s) {as : List α}
    (h : Along step P s as) : Along step Q s as := by
  induction as generalizing s with
  | nil => exact trivial
  | cons a as ih =>
    obtain ⟨hq, hnext⟩ := hstep s a hs h.1
    exact ⟨hq, ih hnext h.2⟩

theorem Along.and {P Q : σ → α → Prop} {s : σ} {as : List α} (hP : Along step P s as)
    (hQ : Along step Q s as) : Along step (fun s a => P s a ∧ Q s a) s as := by
  induction as generalizing s with
  | nil => exact trivial
  | cons a as ih => exact ⟨⟨hP.1, hQ.1⟩, ih hP.2 hQ.2⟩

theorem along_append {P : σ → α → Prop} {s : σ} {as bs : List α} :
    Along step P s (as ++ bs) ↔ Along step P s as ∧ Along step P (as.foldl step s) bs := by
  induction as generalizing s with
  | nil => simp [Along]
  | cons a as ih => simp only [List.cons_append, Along, List.foldl_cons, ih, and_assoc]

end Along

end Transition
