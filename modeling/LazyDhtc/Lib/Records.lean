-- SUMMARY: Records of one width, written one after another and read back.
import LazyDhtc.Lib.Blocks

/-!
# Records of one width

A list of records is written as one string, in which every record takes `n` places. The
string has no other structure: a reader cuts it into pieces of that width.
-/

namespace Records

open Blocks

variable {α β ε : Type}

/-- The pieces of `n` places. What is left over at the end belongs to no piece. -/
def split (n : Nat) (s : List β) : List (List β) := (List.range (s.length / n)).map (block n s)

/-- Every piece as a record, unless one of them is none. -/
def readAll (read : List β → Except ε α) (n : Nat) (s : List β) : Except ε (List α) :=
  (split n s).mapM read

def writeAll (write : α → List β) (xs : List α) : List β := (xs.map write).flatten

/-! ## Cutting -/

theorem length_of_mem_split {n : Nat} {s r : List β} (h : r ∈ split n s) : r.length = n := by
  obtain ⟨i, hi, rfl⟩ := List.mem_map.1 h
  rw [List.mem_range, Nat.lt_iff_add_one_le] at hi
  have hmul : n * (i + 1) ≤ s.length :=
    Nat.le_trans (Nat.mul_le_mul_left n hi) (Nat.mul_div_le s.length n)
  rw [Nat.mul_add_one] at hmul
  rw [length_block]
  omega

theorem split_append {n : Nat} (hn : 0 < n) {r : List β} (hr : r.length = n) (s : List β) :
    split n (r ++ s) = r :: split n s := by
  have hcount : (r ++ s).length / n = s.length / n + 1 := by
    rw [List.length_append, hr, Nat.add_div_left _ hn]
  have hfirst : block n (r ++ s) 0 = r := by simp [block, ← hr]
  have hrest : ∀ i, block n (r ++ s) (i + 1) = block n s i := by
    intro i
    rw [block, block, Nat.mul_add_one, Nat.add_comm, ← List.drop_drop, ← hr, List.drop_left]
  rw [split, hcount, List.range_succ_eq_map, List.map_cons, hfirst, List.map_map]
  exact congrArg (r :: ·) (List.map_congr_left fun i _ => hrest i)

theorem split_flatten {n : Nat} (hn : 0 < n) {rs : List (List β)} (h : ∀ r ∈ rs, r.length = n) :
    split n rs.flatten = rs := by
  induction rs with
  | nil => simp [split]
  | cons r rs ih =>
    rw [List.forall_mem_cons] at h
    rw [List.flatten_cons, split_append hn h.1, ih h.2]

theorem flatten_split {n : Nat} (hn : 0 < n) {s : List β} (h : n ∣ s.length) :
    (split n s).flatten = s := by
  obtain ⟨k, hk⟩ := h
  induction k generalizing s with
  | zero =>
    rw [List.length_eq_zero_iff.1 hk]
    simp [split]
  | succ k ih =>
    rw [Nat.mul_add_one] at hk
    have htake : (s.take n).length = n := by
      rw [List.length_take]
      omega
    have hdrop : (s.drop n).length = n * k := by
      rw [List.length_drop]
      omega
    conv_lhs => rw [← List.take_append_drop n s]
    rw [split_append hn htake, List.flatten_cons, ih hdrop, List.take_append_drop]

/-! ## Reading -/

theorem mapM_write {read : List β → Except ε α} {write : α → List β} {xs : List α}
    (h : ∀ x ∈ xs, read (write x) = .ok x) : (xs.map write).mapM read = .ok xs := by
  induction xs with
  | nil => rfl
  | cons x xs ih =>
    rw [List.forall_mem_cons] at h
    rw [List.map_cons, List.mapM_cons, h.1, ih h.2]
    rfl

theorem mapM_exact {read : List β → Except ε α} {write : α → List β} {rs : List (List β)}
    (h : ∀ r ∈ rs, ∃ x, read r = .ok x ∧ write x = r) :
    ∃ xs, rs.mapM read = .ok xs ∧ xs.map write = rs := by
  induction rs with
  | nil => exact ⟨[], rfl, rfl⟩
  | cons r rs ih =>
    rw [List.forall_mem_cons] at h
    obtain ⟨⟨x, hread, hwrite⟩, hrest⟩ := h
    obtain ⟨xs, hreads, hwrites⟩ := ih hrest
    refine ⟨x :: xs, ?_, by rw [List.map_cons, hwrite, hwrites]⟩
    rw [List.mapM_cons, hread, hreads]
    rfl

/-- A reader that fails on no piece finds the same records as another one exactly if the
    two agree on every piece. -/
theorem mapM_eq_filterMap_iff {read : List β → Except ε α} {find : List β → Option α}
    {rs : List (List β)} (h : ∀ r ∈ rs, ∃ x, find r = some x) :
    rs.mapM read = .ok (rs.filterMap find) ↔ ∀ r ∈ rs, ∀ x, find r = some x → read r = .ok x := by
  induction rs with
  | nil => simp [pure, Except.pure]
  | cons r rs ih =>
    rw [List.forall_mem_cons] at h
    obtain ⟨⟨x, hx⟩, hrest⟩ := h
    have hone : (∀ y, find r = some y → read r = .ok y) ↔ read r = .ok x := by
      rw [hx]
      exact ⟨fun h => h x rfl, fun h y hy => Option.some.inj hy ▸ h⟩
    rw [List.forall_mem_cons, hone, ← ih hrest, List.mapM_cons, List.filterMap_cons, hx]
    cases hr : read r with
    | error err => exact iff_of_false (fun h => nomatch h) (fun h => nomatch h.1)
    | ok y =>
      cases hrs : rs.mapM read with
      | error err => exact iff_of_false (fun h => nomatch h) (fun h => nomatch h.2)
      | ok ys =>
        change Except.ok (y :: ys) = Except.ok (x :: rs.filterMap find) ↔ _
        simp only [Except.ok.injEq, List.cons.injEq]

theorem length_mapM {read : List β → Except ε α} {rs : List (List β)} {xs : List α}
    (h : rs.mapM read = .ok xs) : xs.length = rs.length := by
  induction rs generalizing xs with
  | nil =>
    cases h
    rfl
  | cons r rs ih =>
    rw [List.mapM_cons] at h
    cases hr : read r with
    | error err =>
      rw [hr] at h
      cases h
    | ok x =>
      cases hrs : rs.mapM read with
      | error err =>
        rw [hr, hrs] at h
        cases h
      | ok rest =>
        rw [hr, hrs] at h
        cases h
        rw [List.length_cons, List.length_cons, ih hrs]

/-- There are as many records as pieces. -/
theorem length_readAll {n : Nat} {read : List β → Except ε α} {s : List β} {xs : List α}
    (h : readAll read n s = .ok xs) : xs.length = s.length / n := by
  rw [length_mapM h, split, List.length_map, List.length_range]

theorem length_writeAll {n : Nat} {write : α → List β} {xs : List α}
    (h : ∀ x ∈ xs, (write x).length = n) : (writeAll write xs).length = n * xs.length := by
  induction xs with
  | nil => rfl
  | cons x xs ih =>
    rw [List.forall_mem_cons] at h
    rw [writeAll, List.map_cons, List.flatten_cons, List.length_append, h.1, List.length_cons,
      Nat.mul_add_one, Nat.add_comm]
    exact congrArg (· + n) (ih h.2)

/-- Records that are written are read back. -/
theorem readAll_writeAll {n : Nat} (hn : 0 < n) {read : List β → Except ε α} {write : α → List β}
    {xs : List α} (hlen : ∀ x ∈ xs, (write x).length = n)
    (hread : ∀ x ∈ xs, read (write x) = .ok x) : readAll read n (writeAll write xs) = .ok xs := by
  rw [readAll, writeAll, split_flatten hn (by simpa using hlen)]
  exact mapM_write hread

/-- A string whose pieces are all records of their own is written again as it was. -/
theorem writeAll_readAll {n : Nat} (hn : 0 < n) {read : List β → Except ε α} {write : α → List β}
    {s : List β} (hs : n ∣ s.length) (h : ∀ r ∈ split n s, ∃ x, read r = .ok x ∧ write x = r) :
    ∃ xs, readAll read n s = .ok xs ∧ writeAll write xs = s := by
  obtain ⟨xs, hread, hwrite⟩ := mapM_exact h
  exact ⟨xs, hread, by rw [writeAll, hwrite, flatten_split hn hs]⟩

/-- A reader that takes every piece takes every string. -/
theorem readAll_ok {n : Nat} {read : List β → Except ε α}
    (h : ∀ r : List β, r.length = n → ∃ x, read r = .ok x) (s : List β) :
    ∃ xs, readAll read n s = .ok xs := by
  have hall : ∀ rs : List (List β), (∀ r ∈ rs, r.length = n) → ∃ xs, rs.mapM read = .ok xs := by
    intro rs hrs
    induction rs with
    | nil => exact ⟨[], rfl⟩
    | cons r rs ih =>
      rw [List.forall_mem_cons] at hrs
      obtain ⟨x, hx⟩ := h r hrs.1
      obtain ⟨xs, hxs⟩ := ih hrs.2
      refine ⟨x :: xs, ?_⟩
      rw [List.mapM_cons, hx, hxs]
      rfl
  exact hall (split n s) fun r hr => length_of_mem_split hr

end Records
