-- SUMMARY: Bounded lists with the most recent element first, and when replaying a sequence into one keeps what is ahead in an order.
import Mathlib.Data.List.Induction

/-!
# Bounded recency lists

A cache of `k` elements with the most recent one first. Replaying a sequence leaves its
last `k` elements. A relation `R x y` says that `y` is at least as fresh as `x`; the
replay is ordered by it and drops nothing fresher than what it keeps exactly if each of
the last `k` elements is at least as fresh as all elements before it.
-/

namespace Recency

variable {α : Type*}

/-- A new element goes to the front, and whatever does not fit drops off the end. -/
def push (k : Nat) (l : List α) (x : α) : List α := x :: l.take (k - 1)

theorem push_eq_take {k : Nat} (hk : 0 < k) (l : List α) (x : α) :
    push k l x = (x :: l).take k := by
  obtain ⟨k, rfl⟩ := Nat.exists_eq_succ_of_ne_zero (Nat.ne_zero_of_lt hk)
  rfl

/-- What a replay leaves are the last elements, the very last first. -/
theorem foldl_push {k : Nat} (hk : 0 < k) (xs : List α) {l : List α} (hl : l.length ≤ k) :
    xs.foldl (push k) l = (xs.reverse ++ l).take k := by
  induction xs generalizing l with
  | nil => simp [List.take_of_length_le hl]
  | cons x xs ih =>
    have hlen : (push k l x).length ≤ k := by
      rw [push_eq_take hk]
      exact List.length_take_le k _
    rw [List.foldl_cons, ih hlen, push_eq_take hk, List.reverse_cons, List.append_assoc,
      List.singleton_append, List.take_append, List.take_append, List.take_take]
    congr 2
    exact Nat.min_eq_left (Nat.sub_le _ _)

theorem mem_of_kept {k : Nat} {l : List α} {x : α} (h : x ∈ l.reverse.take k) : x ∈ l :=
  List.mem_reverse.1 (List.mem_of_mem_take h)

theorem mem_of_dropped {k : Nat} {l : List α} {x : α} (h : x ∈ l.reverse.drop k) : x ∈ l :=
  List.mem_reverse.1 (List.mem_of_mem_drop h)

theorem kept_or_dropped {l : List α} {x : α} (h : x ∈ l) (k : Nat) :
    x ∈ l.reverse.take k ∨ x ∈ l.reverse.drop k := by
  rw [← List.mem_append, List.take_append_drop]
  exact List.mem_reverse.2 h

/-! ## Freshness -/

/-- Each of the last `k` elements is at least as fresh as all before it. -/
def EndsFresh (R : α → α → Prop) (k : Nat) (l : List α) : Prop :=
  ∀ earlier y later, l = earlier ++ y :: later → later.length < k → ∀ x ∈ earlier, R x y

/-- A list with the most recent element first is ordered where the cache holds it, and
    what is beyond is less fresh than all the cache holds. -/
def KeepsFresh (R : α → α → Prop) (k : Nat) (l : List α) : Prop :=
  (l.take k).Pairwise (fun a b => R b a) ∧ ∀ a ∈ l.take k, ∀ b ∈ l.drop k, R b a

variable {R : α → α → Prop}

theorem keepsFresh_zero (l : List α) : KeepsFresh R 0 l := by
  refine ⟨?_, ?_⟩
  · rw [List.take_zero]
    exact List.Pairwise.nil
  · intro a ha
    rw [List.take_zero] at ha
    cases ha

/-- The front element is at least as fresh as all others, and the rest keeps fresh. -/
theorem keepsFresh_cons {k : Nat} {a : α} {l : List α} :
    KeepsFresh R (k + 1) (a :: l) ↔ (∀ x ∈ l, R x a) ∧ KeepsFresh R k l := by
  unfold KeepsFresh
  rw [List.take_succ_cons, List.drop_succ_cons, List.pairwise_cons]
  constructor
  · rintro ⟨⟨hkept, hsorted⟩, hdropped⟩
    refine ⟨?_, hsorted, ?_⟩
    · intro x hx
      rw [← List.take_append_drop k l] at hx
      rcases List.mem_append.1 hx with hx | hx
      · exact hkept x hx
      · exact hdropped a List.mem_cons_self x hx
    · intro c hc
      exact hdropped c (List.mem_cons_of_mem a hc)
  · rintro ⟨hfront, hsorted, hdropped⟩
    refine ⟨⟨fun x hx => hfront x (List.mem_of_mem_take hx), hsorted⟩, ?_⟩
    intro c hc b hb
    rcases List.mem_cons.1 hc with rfl | hc
    · exact hfront b (List.mem_of_mem_drop hb)
    · exact hdropped c hc b hb

theorem endsFresh_zero (l : List α) : EndsFresh R 0 l :=
  fun _ _ _ _ hlater => absurd hlater (Nat.not_lt_zero _)

/-- The last element is at least as fresh as all others, and those before end fresh. -/
theorem endsFresh_concat {k : Nat} {a : α} {l : List α} :
    EndsFresh R (k + 1) (l ++ [a]) ↔ (∀ x ∈ l, R x a) ∧ EndsFresh R k l := by
  constructor
  · intro h
    refine ⟨h l a [] rfl (Nat.succ_pos k), ?_⟩
    rintro earlier y later rfl hlater
    exact h earlier y (later ++ [a]) (by simp) (by simpa using hlater)
  · rintro ⟨hlast, hrest⟩ earlier y later hsplit hlater
    rcases List.eq_nil_or_concat later with rfl | ⟨later, b, rfl⟩
    · obtain ⟨rfl, heq⟩ := List.append_inj' hsplit rfl
      cases heq
      exact hlast
    · rw [List.concat_eq_append, ← List.cons_append, ← List.append_assoc] at hsplit
      obtain ⟨rfl, -⟩ := List.append_inj' hsplit rfl
      refine hrest earlier y later rfl ?_
      simpa using hlater

theorem endsFresh_nil (k : Nat) : EndsFresh R k ([] : List α) := by
  intro earlier y later hsplit
  simp at hsplit

theorem keepsFresh_nil (k : Nat) : KeepsFresh R k ([] : List α) := by
  simp [KeepsFresh]

/-- A replay keeps the freshest elements in order if and only if the sequence ends fresh. -/
theorem keepsFresh_reverse_iff (k : Nat) (l : List α) :
    KeepsFresh R k l.reverse ↔ EndsFresh R k l := by
  induction l using List.reverseRecOn generalizing k with
  | nil => exact iff_of_true (keepsFresh_nil k) (endsFresh_nil k)
  | append_singleton l a ih =>
    cases k with
    | zero => exact iff_of_true (keepsFresh_zero _) (endsFresh_zero _)
    | succ k =>
      rw [List.reverse_append, List.reverse_singleton, List.singleton_append, keepsFresh_cons,
        endsFresh_concat, ih k]
      simp only [List.mem_reverse]

end Recency
