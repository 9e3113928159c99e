-- SUMMARY: Orderly shutdown: a program that closes signals and waits for goroutines, each of which leaves once a signal of its own is closed, can always complete.
import LazyDhtc.Lib.Transition
import Mathlib.Logic.Function.Basic

/-!
# Shutdown

Goroutines take turns between waiting for something to do and doing it, and leave
while they wait if one of their exit signals is closed. A shutdown is a program that
closes signals and waits for goroutines to end. If it closes an exit signal of each
goroutine before it waits for it, then no interleaving can keep it from completing.
-/

namespace Shutdown

/-- An instruction of a shutdown program. -/
inductive Instr (S G : Type*) where
  | close (signal : S)
  | wait (g : G)

inductive Status where
  | waiting
  | working
  | ended

structure State (S G : Type*) where
  closed : List S
  status : G → Status
  code : List (Instr S G)

inductive Action (G : Type*) where
  | work (g : G)
  | rest (g : G)
  | leave (g : G)
  /-- the next instruction of the program -/
  | exec

variable {S G : Type*} [DecidableEq G] (exits : G → List S)

inductive Step : State S G → Action G → State S G → Prop where
  | work {st : State S G} {g : G} : st.status g = .waiting →
      Step st (.work g) { st with status := Function.update st.status g .working }
  | rest {st : State S G} {g : G} : st.status g = .working →
      Step st (.rest g) { st with status := Function.update st.status g .waiting }
  | leave {st : State S G} {g : G} {signal : S} : st.status g = .waiting → signal ∈ exits g →
      signal ∈ st.closed →
      Step st (.leave g) { st with status := Function.update st.status g .ended }
  | close {st : State S G} {signal : S} {rest : List (Instr S G)} :
      st.code = .close signal :: rest →
      Step st .exec { st with closed := signal :: st.closed, code := rest }
  | wait {st : State S G} {g : G} {rest : List (Instr S G)} : st.code = .wait g :: rest →
      st.status g = .ended → Step st .exec { st with code := rest }

/-- The shutdown with `code`, before which some goroutines run. -/
def system (code : List (Instr S G)) : Transition.System (State S G) (Action G) where
  init st := st.closed = [] ∧ st.code = code
  step := Step exits

/-- The program closes an exit signal of each goroutine before it waits for it. -/
def Ordered : List S → List (Instr S G) → Prop
  | _, [] => True
  | closed, .close signal :: rest => Ordered (signal :: closed) rest
  | closed, .wait g :: rest => (∃ signal ∈ exits g, signal ∈ closed) ∧ Ordered closed rest

variable {exits}

omit [DecidableEq G] in
theorem Ordered.mono {closed closed' : List S} {code : List (Instr S G)}
    (h : Ordered exits closed code) (hsub : closed ⊆ closed') : Ordered exits closed' code := by
  induction code generalizing closed closed' with
  | nil => trivial
  | cons instr code ih =>
    cases instr with
    | close signal => exact ih h (List.cons_subset_cons signal hsub)
    | wait g =>
      obtain ⟨⟨signal, hexit, hclosed⟩, hrest⟩ := h
      exact ⟨⟨signal, hexit, hsub hclosed⟩, ih hrest hsub⟩

omit [DecidableEq G] in
theorem Ordered.append {closed : List S} {code code' : List (Instr S G)}
    (h : Ordered exits closed code) (h' : Ordered exits closed code') :
    Ordered exits closed (code ++ code') := by
  induction code generalizing closed with
  | nil => exact h'
  | cons instr code ih =>
    cases instr with
    | close signal => exact ih h (h'.mono (List.subset_cons_self signal closed))
    | wait g => exact ⟨h.1, ih h.2 h'⟩

/-- No step makes the program wait for a goroutine that cannot leave. -/
theorem Step.ordered {st st' : State S G} {a : Action G} (hstep : Step exits st a st')
    (h : Ordered exits st.closed st.code) : Ordered exits st'.closed st'.code := by
  cases hstep with
  | work | rest | leave => exact h
  | close hcode =>
    rw [hcode] at h
    exact h
  | wait hcode =>
    rw [hcode] at h
    exact h.2

/-- A goroutine with a closed exit signal can be brought to its end. -/
theorem ends (code : List (Instr S G)) (st : State S G) (g : G)
    (h : ∃ signal ∈ exits g, signal ∈ st.closed) :
    ∃ status, (system exits code).Steps st { st with status := status } ∧ status g = .ended := by
  obtain ⟨signal, hexit, hclosed⟩ := h
  have hleave : ∀ st' : State S G, st'.closed = st.closed → st'.status g = .waiting →
      (system exits code).Steps st' { st' with status := Function.update st'.status g .ended } := by
    intro st' heq hwait
    exact .single (Step.leave hwait hexit (by rw [heq]; exact hclosed))
  cases hstatus : st.status g with
  | ended => exact ⟨st.status, .refl _, hstatus⟩
  | waiting => exact ⟨_, hleave st rfl hstatus, Function.update_self ..⟩
  | working =>
    refine ⟨_, .head (Step.rest hstatus) (hleave _ rfl ?_), Function.update_self ..⟩
    exact Function.update_self ..

/-- From every state, an orderly shutdown can complete. -/
theorem completes (code : List (Instr S G)) (st : State S G)
    (h : Ordered exits st.closed st.code) :
    ∃ st', (system exits code).Steps st st' ∧ st'.code = [] := by
  obtain ⟨closed, status, rest⟩ := st
  induction rest generalizing closed status with
  | nil => exact ⟨_, .refl _, rfl⟩
  | cons instr rest ih =>
    cases instr with
    | close signal =>
      obtain ⟨st', hsteps, hdone⟩ := ih (signal :: closed) status h
      exact ⟨st', .head (Step.close rfl) hsteps, hdone⟩
    | wait g =>
      obtain ⟨hexit, hrest⟩ := h
      obtain ⟨status', hends, hended⟩ := ends code ⟨closed, status, .wait g :: rest⟩ g hexit
      obtain ⟨st', hsteps, hdone⟩ := ih closed status' hrest
      exact ⟨st', hends.trans (.head (Step.wait rfl hended) hsteps), hdone⟩

end Shutdown
