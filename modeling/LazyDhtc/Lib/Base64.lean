-- SUMMARY: The standard base64 encoding with padding, and that decoding it gives the bytes back.
import LazyDhtc.Lib.Bytes

/-!
# Base64

Three bytes are written as four digits of six bits each. A last group of one or two
bytes is padded to four characters with `=`.
-/

namespace Base64

/-- The character of a digit below 64: `A-Z`, `a-z`, `0-9`, `+`, `/`. -/
def digit (n : Nat) : UInt8 :=
  if n < 26 then .ofNat (65 + n)
  else if n < 52 then .ofNat (71 + n)
  else if n < 62 then .ofNat (n - 4)
  else if n = 62 then 43
  else 47

def value (c : UInt8) : Option Nat :=
  if 65 ≤ c ∧ c ≤ 90 then some (c.toNat - 65)
  else if 97 ≤ c ∧ c ≤ 122 then some (c.toNat - 71)
  else if 48 ≤ c ∧ c ≤ 57 then some (c.toNat + 4)
  else if c = 43 then some 62
  else if c = 47 then some 63
  else none

/-- `=` -/
def pad : UInt8 := 61

def encode : Bytes → Bytes
  | [] => []
  | [a] => [digit (a.toNat / 4), digit (a.toNat % 4 * 16), pad, pad]
  | [a, b] =>
    [digit (a.toNat / 4), digit (a.toNat % 4 * 16 + b.toNat / 16), digit (b.toNat % 16 * 4), pad]
  | a :: b :: c :: s =>
    digit (a.toNat / 4) :: digit (a.toNat % 4 * 16 + b.toNat / 16) ::
      digit (b.toNat % 16 * 4 + c.toNat / 64) :: digit (c.toNat % 64) :: encode s

/-- Groups of four characters, of which only the last may be padded. -/
def decodeGroups : Bytes → Option Bytes
  | [] => some []
  | c₁ :: c₂ :: c₃ :: c₄ :: s =>
    match value c₁, value c₂, value c₃, value c₄ with
    | some w, some x, some y, some z =>
      (decodeGroups s).map fun bs =>
        .ofNat (w * 4 + x / 16) :: .ofNat (x % 16 * 16 + y / 4) :: .ofNat (y % 4 * 64 + z) :: bs
    | some w, some x, some y, none =>
      if c₄ = pad ∧ s = [] then some [.ofNat (w * 4 + x / 16), .ofNat (x % 16 * 16 + y / 4)]
      else none
    | some w, some x, none, none =>
      if c₃ = pad ∧ c₄ = pad ∧ s = [] then some [.ofNat (w * 4 + x / 16)] else none
    | _, _, _, _ => none
  | _ => none

/-- `base64.StdEncoding.Decode`: line ends are skipped, and the bits of the last digit
    that belong to no byte are ignored. -/
def decode (s : Bytes) : Option Bytes := decodeGroups (s.filter fun c => c ≠ 10 && c ≠ 13)

/-! ## Round trip -/

theorem digit_range {n : Nat} (h : n < 64) :
    value (digit n) = some n ∧ digit n ≠ 10 ∧ digit n ≠ 13 ∧ 0x20 ≤ digit n ∧ digit n < 0x80 ∧
      digit n ≠ 0x22 ∧ digit n ≠ 0x5C ∧ digit n ≠ 0x3C ∧ digit n ≠ 0x3E ∧ digit n ≠ 0x26 := by
  revert n
  decide

theorem value_digit {n : Nat} (h : n < 64) : value (digit n) = some n := (digit_range h).1

theorem value_pad : value pad = none := by decide

/-- The characters of an encoding. -/
def IsChar (c : UInt8) : Prop := c = pad ∨ ∃ n, n < 64 ∧ c = digit n

theorem isChar_digit {n : Nat} (h : n < 64) : IsChar (digit n) := .inr ⟨n, h, rfl⟩

theorem isChar_of_mem_encode {s : Bytes} {c : UInt8} (h : c ∈ encode s) : IsChar c := by
  induction s using encode.induct with
  | case1 => cases h
  | case2 a =>
    have ha := a.toNat_lt
    simp only [encode, List.mem_cons, List.not_mem_nil, or_false] at h
    rcases h with rfl | rfl | rfl | rfl
    · exact isChar_digit (by omega)
    · exact isChar_digit (by omega)
    · exact .inl rfl
    · exact .inl rfl
  | case3 a b =>
    have ha := a.toNat_lt
    have hb := b.toNat_lt
    simp only [encode, List.mem_cons, List.not_mem_nil, or_false] at h
    rcases h with rfl | rfl | rfl | rfl
    · exact isChar_digit (by omega)
    · exact isChar_digit (by omega)
    · exact isChar_digit (by omega)
    · exact .inl rfl
  | case4 a b c s ih =>
    have ha := a.toNat_lt
    have hb := b.toNat_lt
    have hc := c.toNat_lt
    simp only [encode, List.mem_cons] at h
    rcases h with rfl | rfl | rfl | rfl | h
    · exact isChar_digit (by omega)
    · exact isChar_digit (by omega)
    · exact isChar_digit (by omega)
    · exact isChar_digit (by omega)
    · exact ih h

theorem ofNat_eq {n : Nat} {b : UInt8} (h : n = b.toNat) : UInt8.ofNat n = b := by
  subst h
  exact UInt8.ofNat_toNat

theorem decodeGroups_encode (s : Bytes) : decodeGroups (encode s) = some s := by
  induction s using encode.induct with
  | case1 => rfl
  | case2 a =>
    have ha := a.toNat_lt
    simp only [encode, decodeGroups, value_pad, value_digit (n := a.toNat / 4) (by omega),
      value_digit (n := a.toNat % 4 * 16) (by omega), and_self, if_true]
    rw [ofNat_eq (b := a) (by omega)]
  | case3 a b =>
    have ha := a.toNat_lt
    have hb := b.toNat_lt
    simp only [encode, decodeGroups, value_pad, value_digit (n := a.toNat / 4) (by omega),
      value_digit (n := a.toNat % 4 * 16 + b.toNat / 16) (by omega),
      value_digit (n := b.toNat % 16 * 4) (by omega), and_self, if_true]
    rw [ofNat_eq (b := a) (by omega), ofNat_eq (b := b) (by omega)]
  | case4 a b c s ih =>
    have ha := a.toNat_lt
    have hb := b.toNat_lt
    have hc := c.toNat_lt
    simp only [encode, decodeGroups, value_digit (n := a.toNat / 4) (by omega),
      value_digit (n := a.toNat % 4 * 16 + b.toNat / 16) (by omega),
      value_digit (n := b.toNat % 16 * 4 + c.toNat / 64) (by omega),
      value_digit (n := c.toNat % 64) (by omega), ih, Option.map_some]
    rw [ofNat_eq (b := a) (by omega), ofNat_eq (b := b) (by omega), ofNat_eq (b := c) (by omega)]

theorem decode_encode (s : Bytes) : decode (encode s) = some s := by
  unfold decode
  rw [List.filter_eq_self.2, decodeGroups_encode]
  intro c hc
  rcases isChar_of_mem_encode hc with rfl | ⟨n, hn, rfl⟩
  · decide
  · obtain ⟨-, h₁, h₂, -⟩ := digit_range hn
    simp [h₁, h₂]

theorem length_encode (s : Bytes) : (encode s).length = (s.length + 2) / 3 * 4 := by
  induction s using encode.induct with
  | case1 => rfl
  | case2 a => simp [encode]
  | case3 a b => simp [encode]
  | case4 a b c s ih =>
    simp only [encode, List.length_cons, ih]
    omega

end Base64
