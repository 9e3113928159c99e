-- SUMMARY: UTF-8: splitting a byte string into encoded runes and stray bytes, and replacing the stray bytes by U+FFFD.
import LazyDhtc.Lib.Bytes

/-!
# UTF-8

A Go string is any byte string. Whoever ranges over its runes sees a sequence of chunks:
the encodings of runes, and single bytes that start no encoding, which read as U+FFFD.
-/

namespace Utf8

/-! ## Chunks -/

/-- How many bytes follow a leading byte, and the range that the first of them has to be
    in. A byte that starts no encoding has none. -/
def lead (b : UInt8) : Option (Nat × UInt8 × UInt8) :=
  if b < 0x80 then some (0, 0x80, 0xBF)
  else if b < 0xC2 then none
  else if b < 0xE0 then some (1, 0x80, 0xBF)
  else if b = 0xE0 then some (2, 0xA0, 0xBF)
  else if b = 0xED then some (2, 0x80, 0x9F)
  else if b < 0xF0 then some (2, 0x80, 0xBF)
  else if b = 0xF0 then some (3, 0x90, 0xBF)
  else if b < 0xF4 then some (3, 0x80, 0xBF)
  else if b = 0xF4 then some (3, 0x80, 0x8F)
  else none

/-- The next `n` bytes continue an encoding, the first of them from `lo` to `hi`. -/
def continues : Nat → UInt8 → UInt8 → Bytes → Bool
  | 0, _, _, _ => true
  | _ + 1, _, _, [] => false
  | n + 1, lo, hi, b :: s => lo ≤ b && b ≤ hi && continues n 0x80 0xBF s

/-- The number of bytes after `b` in the encoding that `b :: s` starts with. -/
def tailLen (b : UInt8) (s : Bytes) : Option Nat :=
  match lead b with
  | some (n, lo, hi) => if continues n lo hi s then some n else none
  | none => none

inductive Chunk where
  | rune (encoding : Bytes)
  | invalid (b : UInt8)
deriving DecidableEq

/-- The chunks of a byte string after its first `skip` bytes. -/
def chunksFrom : Nat → Bytes → List Chunk
  | _, [] => []
  | skip + 1, _ :: s => chunksFrom skip s
  | 0, b :: s =>
    match tailLen b s with
    | some n => .rune (b :: s.take n) :: chunksFrom n s
    | none => .invalid b :: chunksFrom 0 s

def chunks (s : Bytes) : List Chunk := chunksFrom 0 s

/-- A byte string that is the encoding of one rune. -/
def IsRune (u : Bytes) : Prop := ∃ b s, u = b :: s ∧ tailLen b s = some s.length

theorem chunksFrom_eq (k : Nat) (s : Bytes) : chunksFrom k s = chunks (s.drop k) := by
  induction s generalizing k with
  | nil => cases k <;> rfl
  | cons b s ih =>
    cases k with
    | zero => rfl
    | succ k => exact ih k

@[simp] theorem chunks_nil : chunks [] = [] := rfl

theorem continues_length {n : Nat} {lo hi : UInt8} {s : Bytes} (h : continues n lo hi s) :
    n ≤ s.length := by
  induction n generalizing lo hi s with
  | zero => exact Nat.zero_le _
  | succ n ih =>
    cases s with
    | nil => cases h
    | cons b s =>
      simp only [continues, Bool.and_eq_true] at h
      exact Nat.succ_le_succ (ih h.2)

theorem continues_congr {n : Nat} {lo hi : UInt8} {s t : Bytes} (h : s.take n = t.take n)
    (hs : continues n lo hi s) : continues n lo hi t := by
  induction n generalizing lo hi s t with
  | zero => rfl
  | succ n ih =>
    cases s with
    | nil => cases hs
    | cons b s =>
      cases t with
      | nil => simp at h
      | cons c t =>
        simp only [List.take_succ_cons, List.cons.injEq] at h
        obtain ⟨rfl, htail⟩ := h
        simp only [continues, Bool.and_eq_true] at hs ⊢
        exact ⟨hs.1, ih htail hs.2⟩

theorem tailLen_eq_some {b : UInt8} {s : Bytes} {n : Nat} :
    tailLen b s = some n ↔ ∃ lo hi, lead b = some (n, lo, hi) ∧ continues n lo hi s := by
  unfold tailLen
  cases lead b with
  | none => simp
  | some l =>
    obtain ⟨k, lo, hi⟩ := l
    simp only [Option.ite_none_right_eq_some, Option.some.injEq, Prod.mk.injEq]
    constructor
    · rintro ⟨hcont, rfl⟩
      exact ⟨lo, hi, ⟨rfl, rfl, rfl⟩, hcont⟩
    · rintro ⟨_, _, ⟨rfl, rfl, rfl⟩, hcont⟩
      exact ⟨hcont, rfl⟩

theorem tailLen_length {b : UInt8} {s : Bytes} {n : Nat} (h : tailLen b s = some n) :
    n ≤ s.length := by
  obtain ⟨lo, hi, -, hcont⟩ := tailLen_eq_some.1 h
  exact continues_length hcont

theorem tailLen_congr {b : UInt8} {s t : Bytes} {n : Nat} (hst : s.take n = t.take n)
    (h : tailLen b s = some n) : tailLen b t = some n := by
  obtain ⟨lo, hi, hlead, hcont⟩ := tailLen_eq_some.1 h
  exact tailLen_eq_some.2 ⟨lo, hi, hlead, continues_congr hst hcont⟩

theorem tailLen_ascii {b : UInt8} (hb : b < 0x80) (s : Bytes) : tailLen b s = some 0 := by
  simp [tailLen, lead, hb, continues]

theorem chunks_cons_rune {b : UInt8} {s : Bytes} {n : Nat} (h : tailLen b s = some n) :
    chunks (b :: s) = .rune (b :: s.take n) :: chunks (s.drop n) := by
  rw [← chunksFrom_eq]
  unfold chunks
  simp only [chunksFrom, h]

theorem chunks_cons_invalid {b : UInt8} {s : Bytes} (h : tailLen b s = none) :
    chunks (b :: s) = .invalid b :: chunks s := by
  unfold chunks
  simp only [chunksFrom, h]

/-- Induction along the chunks of a byte string. -/
theorem chunks_induction {P : Bytes → Prop} (nil : P [])
    (rune : ∀ b s n, tailLen b s = some n → P (s.drop n) → P (b :: s))
    (invalid : ∀ b s, tailLen b s = none → P s → P (b :: s)) (s : Bytes) : P s := by
  induction hlen : s.length using Nat.strong_induction_on generalizing s with
  | _ k ih =>
    cases s with
    | nil => exact nil
    | cons b s =>
      subst hlen
      cases htail : tailLen b s with
      | some n =>
        refine rune b s n htail (ih _ ?_ _ rfl)
        simp only [List.length_drop, List.length_cons]
        omega
      | none => exact invalid b s htail (ih _ (by simp) _ rfl)

theorem isRune_take {b : UInt8} {s : Bytes} {n : Nat} (h : tailLen b s = some n) :
    IsRune (b :: s.take n) := by
  refine ⟨b, s.take n, rfl, ?_⟩
  have hsame : s.take n = (s.take n).take n := by rw [List.take_take, Nat.min_self]
  rw [List.length_take_of_le (tailLen_length h)]
  exact tailLen_congr hsame h

theorem isRune_ascii {b : UInt8} (hb : b < 0x80) : IsRune [b] := ⟨b, [], rfl, tailLen_ascii hb []⟩

/-- Only ASCII runes are encoded in one byte, and no ASCII byte continues an encoding. -/
theorem lead_spec {b lo hi : UInt8} {n : Nat} (h : lead b = some (n, lo, hi)) :
    0x80 ≤ lo ∧ (n = 0 ↔ b < 0x80) := by
  unfold lead at h
  by_cases hascii : b < 0x80
  · rw [if_pos hascii] at h
    cases h
    exact ⟨by decide, iff_of_true rfl hascii⟩
  · rw [if_neg hascii] at h
    repeat' split at h
    all_goals cases h
    all_goals exact ⟨by decide, iff_of_false (by decide) hascii⟩

theorem isRune_singleton {b : UInt8} : IsRune [b] ↔ b < 0x80 := by
  refine ⟨?_, isRune_ascii⟩
  rintro ⟨b, s, heq, hs⟩
  cases heq
  obtain ⟨lo, hi, hlead, -⟩ := tailLen_eq_some.1 hs
  exact (lead_spec hlead).2.1 rfl

theorem continues_bytes {n : Nat} {lo hi : UInt8} {s : Bytes} (hlo : 0x80 ≤ lo)
    (h : continues n lo hi s) : ∀ b ∈ s.take n, 0x80 ≤ b := by
  induction n generalizing lo hi s with
  | zero => simp
  | succ n ih =>
    cases s with
    | nil => cases h
    | cons c s =>
      simp only [continues, Bool.and_eq_true, decide_eq_true_eq] at h
      simp only [List.take_succ_cons, List.mem_cons]
      rintro b (rfl | hb)
      · exact UInt8.le_trans hlo h.1.1
      · exact ih (UInt8.le_refl _) h.2 b hb

theorem isRune_bytes {u : Bytes} (hu : IsRune u) (hlen : u.length ≠ 1) : ∀ b ∈ u, 0x80 ≤ b := by
  obtain ⟨b, s, rfl, hs⟩ := hu
  obtain ⟨lo, hi, hlead, hcont⟩ := tailLen_eq_some.1 hs
  obtain ⟨hlo, hzero⟩ := lead_spec hlead
  have hlow := continues_bytes hlo hcont
  rw [List.take_length] at hlow
  simp only [List.mem_cons]
  rintro c (rfl | hc)
  · refine UInt8.not_lt.1 fun hascii => hlen ?_
    rw [List.length_cons, hzero.2 hascii]
  · exact hlow c hc

theorem isRune_of_mem {s u : Bytes} (h : .rune u ∈ chunks s) : IsRune u := by
  induction s using chunks_induction with
  | nil => simp at h
  | rune b s n htail ih =>
    rw [chunks_cons_rune htail, List.mem_cons] at h
    rcases h with h | h
    · cases h
      exact isRune_take htail
    · exact ih h
  | invalid b s htail ih =>
    rw [chunks_cons_invalid htail, List.mem_cons] at h
    rcases h with h | h
    · cases h
    · exact ih h

/-- The encoding of a rune is read back whatever follows it. -/
theorem chunks_append_rune {u : Bytes} (hu : IsRune u) (t : Bytes) :
    chunks (u ++ t) = .rune u :: chunks t := by
  obtain ⟨b, s, rfl, hs⟩ := hu
  have htail : tailLen b (s ++ t) = some s.length := tailLen_congr (by simp) hs
  rw [List.cons_append, chunks_cons_rune htail]
  simp

/-! ## Coercion -/

/-- The encoding of U+FFFD. -/
def replacement : Bytes := [0xEF, 0xBF, 0xBD]

def Chunk.coerce : Chunk → Bytes
  | .rune u => u
  | .invalid _ => replacement

/-- A byte string with each byte that starts no encoding replaced by U+FFFD. -/
def coerce (s : Bytes) : Bytes := (chunks s).flatMap Chunk.coerce

def Chunk.isRune : Chunk → Bool
  | .rune _ => true
  | .invalid _ => false

/-- `utf8.Valid` -/
def valid (s : Bytes) : Bool := (chunks s).all Chunk.isRune

theorem isRune_replacement : IsRune replacement := ⟨0xEF, [0xBF, 0xBD], rfl, by decide⟩

@[simp] theorem coerce_nil : coerce [] = [] := rfl

theorem coerce_append_rune {u : Bytes} (hu : IsRune u) (t : Bytes) :
    coerce (u ++ t) = u ++ coerce t := by
  simp [coerce, chunks_append_rune hu, Chunk.coerce]

theorem coerce_cons_rune {b : UInt8} {s : Bytes} {n : Nat} (h : tailLen b s = some n) :
    coerce (b :: s) = (b :: s.take n) ++ coerce (s.drop n) := by
  simp [coerce, chunks_cons_rune h, Chunk.coerce]

theorem coerce_cons_invalid {b : UInt8} {s : Bytes} (h : tailLen b s = none) :
    coerce (b :: s) = replacement ++ coerce s := by
  simp [coerce, chunks_cons_invalid h, Chunk.coerce]

theorem coerce_coerce (s : Bytes) : coerce (coerce s) = coerce s := by
  induction s using chunks_induction with
  | nil => rfl
  | rune b s n htail ih =>
    rw [coerce_cons_rune htail, coerce_append_rune (isRune_take htail), ih]
  | invalid b s htail ih =>
    rw [coerce_cons_invalid htail, coerce_append_rune isRune_replacement, ih]

theorem length_le_coerce (s : Bytes) : s.length ≤ (coerce s).length := by
  induction s using chunks_induction with
  | nil => exact Nat.le_refl _
  | rune b s n htail ih =>
    have hn := tailLen_length htail
    simp only [coerce_cons_rune htail, List.length_append, List.length_cons,
      List.length_take_of_le hn, List.length_drop] at ih ⊢
    omega
  | invalid b s htail ih =>
    simp only [coerce_cons_invalid htail, replacement, List.length_append, List.length_cons,
      List.length_nil]
    omega

/-- Valid strings are those that coercion leaves as they are. -/
theorem coerce_eq_self_iff {s : Bytes} : coerce s = s ↔ valid s = true := by
  induction s using chunks_induction with
  | nil => simp [valid]
  | rune b s n htail ih =>
    have hsplit : b :: s = (b :: s.take n) ++ s.drop n := by simp
    rw [coerce_cons_rune htail]
    conv => lhs; rhs; rw [hsplit]
    rw [List.append_cancel_left_eq, ih]
    simp [valid, chunks_cons_rune htail, Chunk.isRune]
  | invalid b s htail ih =>
    have hlen := length_le_coerce s
    have hne : coerce (b :: s) ≠ b :: s := by
      intro h
      have hlen' := congrArg List.length h
      simp only [coerce_cons_invalid htail, replacement, List.length_append, List.length_cons,
        List.length_nil] at hlen'
      omega
    simp [hne, valid, chunks_cons_invalid htail, Chunk.isRune]

/-! ## ASCII -/

theorem chunks_ascii {s : Bytes} (hs : ∀ b ∈ s, b < 0x80) :
    chunks s = s.map fun b => .rune [b] := by
  induction s with
  | nil => rfl
  | cons b s ih =>
    rw [chunks_cons_rune (tailLen_ascii (hs b List.mem_cons_self) s)]
    simp [ih fun c hc => hs c (List.mem_cons_of_mem _ hc)]

theorem valid_ascii {s : Bytes} (hs : ∀ b ∈ s, b < 0x80) : valid s = true := by
  simp [valid, chunks_ascii hs, Chunk.isRune]

theorem coerce_ascii {s : Bytes} (hs : ∀ b ∈ s, b < 0x80) : coerce s = s :=
  coerce_eq_self_iff.2 (valid_ascii hs)

theorem coerce_ascii_append {s : Bytes} (hs : ∀ b ∈ s, b < 0x80) (t : Bytes) :
    coerce (s ++ t) = s ++ coerce t := by
  induction s with
  | nil => rfl
  | cons b s ih =>
    have hrune := coerce_append_rune (isRune_ascii (hs b List.mem_cons_self)) (s ++ t)
    rw [List.cons_append, ← List.singleton_append, hrune, ih fun c hc =>
      hs c (List.mem_cons_of_mem b hc)]
    rfl

/-- No encoding continues with an ASCII byte. -/
theorem continues_append_ascii {n : Nat} {lo hi : UInt8} {s t : Bytes} (hlo : 0x80 ≤ lo)
    (ht : ∀ b, t.head? = some b → b < 0x80) (h : continues n lo hi (s ++ t)) :
    continues n lo hi s := by
  induction n generalizing lo hi s with
  | zero => rfl
  | succ n ih =>
    cases s with
    | nil =>
      cases t with
      | nil => cases h
      | cons b t =>
        simp only [List.nil_append, continues, Bool.and_eq_true, decide_eq_true_eq] at h
        exact absurd (ht b rfl) (UInt8.not_lt.2 (UInt8.le_trans hlo h.1.1))
    | cons b s =>
      simp only [List.cons_append, continues, Bool.and_eq_true] at h ⊢
      exact ⟨h.1, ih (UInt8.le_refl _) h.2⟩

theorem tailLen_append_ascii {b : UInt8} {s t : Bytes} (ht : ∀ c, t.head? = some c → c < 0x80) :
    tailLen b (s ++ t) = tailLen b s := by
  cases hs : tailLen b s with
  | some n =>
    have hn := tailLen_length hs
    exact tailLen_congr (List.take_append_of_le_length hn).symm hs
  | none =>
    cases hst : tailLen b (s ++ t) with
    | none => rfl
    | some n =>
      obtain ⟨lo, hi, hlead, hcont⟩ := tailLen_eq_some.1 hst
      have hcont' := continues_append_ascii (lead_spec hlead).1 ht hcont
      rw [tailLen_eq_some.2 ⟨lo, hi, hlead, hcont'⟩] at hs
      cases hs

/-- Coercion treats the text before and after the start of an ASCII text separately. -/
theorem coerce_append_ascii (s : Bytes) {t : Bytes} (ht : ∀ b, t.head? = some b → b < 0x80) :
    coerce (s ++ t) = coerce s ++ coerce t := by
  induction s using chunks_induction with
  | nil => rfl
  | rune b s n htail ih =>
    have hn := tailLen_length htail
    have htail' : tailLen b (s ++ t) = some n := (tailLen_append_ascii ht).trans htail
    rw [List.cons_append, coerce_cons_rune htail', coerce_cons_rune htail,
      List.take_append_of_le_length hn, List.drop_append_of_le_length hn, ih, List.append_assoc]
  | invalid b s htail ih =>
    have htail' : tailLen b (s ++ t) = none := (tailLen_append_ascii ht).trans htail
    rw [List.cons_append, coerce_cons_invalid htail', coerce_cons_invalid htail, ih,
      List.append_assoc]

/-! ## Encoding -/

/-- The encoding of a rune, U+FFFD for a number that is none. -/
def encodeRune (c : Nat) : Bytes :=
  if c < 0x80 then [.ofNat c]
  else if c < 0x800 then [.ofNat (0xC0 + c / 64), .ofNat (0x80 + c % 64)]
  else if 0xD800 ≤ c ∧ c < 0xE000 then replacement
  else if c < 0x10000 then
    [.ofNat (0xE0 + c / 4096), .ofNat (0x80 + c / 64 % 64), .ofNat (0x80 + c % 64)]
  else if c < 0x110000 then
    [.ofNat (0xF0 + c / 262144), .ofNat (0x80 + c / 4096 % 64), .ofNat (0x80 + c / 64 % 64),
      .ofNat (0x80 + c % 64)]
  else replacement

end Utf8
