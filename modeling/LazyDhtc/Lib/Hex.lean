-- SUMMARY: Hexadecimal text: byte strings with two digits a byte, and 16-bit numbers without leading zeros.
import LazyDhtc.Lib.Json.Text

/-!
# Hexadecimal text

The digits and their values are those of JSON escapes.
-/

namespace Hex

open Json

/-! ## Byte strings -/

/-- `hex.EncodeToString` -/
def encode (bs : Bytes) : Bytes :=
  bs.flatMap fun b => [hexDigit (b.toNat / 16), hexDigit (b.toNat % 16)]

/-- `hex.DecodeString` -/
def decode : Bytes → Option Bytes
  | [] => some []
  | [_] => none
  | c₁ :: c₂ :: s =>
    match hexValue c₁, hexValue c₂ with
    | some a, some b => (decode s).map fun bs => .ofNat (a * 16 + b) :: bs
    | _, _ => none

theorem decode_encode (bs : Bytes) : decode (encode bs) = some bs := by
  induction bs with
  | nil => rfl
  | cons b bs ih =>
    have hb : b.toNat < 256 := b.toNat_lt
    have hsplit : b.toNat / 16 * 16 + b.toNat % 16 = b.toNat := by omega
    have hstep : encode (b :: bs) =
        hexDigit (b.toNat / 16) :: hexDigit (b.toNat % 16) :: encode bs := rfl
    rw [hstep]
    simp [decode, hexValue_hexDigit (b.toNat / 16) (by omega),
      hexValue_hexDigit (b.toNat % 16) (by omega), ih, hsplit]

theorem hexDigit_ascii : ∀ n, n < 16 → hexDigit n < 0x80 := by decide

theorem encode_ascii (bs : Bytes) : ∀ c ∈ encode bs, c < 0x80 := by
  intro c hc
  obtain ⟨b, -, hc⟩ := List.mem_flatMap.1 hc
  have hb : b.toNat < 256 := b.toNat_lt
  simp only [List.mem_cons, List.not_mem_nil, or_false] at hc
  rcases hc with rfl | rfl
  · exact hexDigit_ascii _ (by omega)
  · exact hexDigit_ascii _ (by omega)

/-! ## Numbers -/

/-- A 16-bit number without leading zeros. -/
def appendHex (x : Nat) : Bytes :=
  (if 0x1000 ≤ x then [hexDigit (x / 0x1000)] else []) ++
    (if 0x100 ≤ x then [hexDigit (x / 0x100 % 16)] else []) ++
    (if 0x10 ≤ x then [hexDigit (x / 0x10 % 16)] else []) ++ [hexDigit (x % 16)]

/-- Read a number of at most four digits: how many digits there are, after the `off` read
    already, the number, and the rest of the text. -/
def readGroup (off acc : Nat) : Bytes → Option (Nat × Nat × Bytes)
  | [] => some (off, acc, [])
  | c :: s =>
    match hexValue c with
    | none => some (off, acc, c :: s)
    | some d =>
      if 3 < off then none
      else if 0xFFFF < acc * 16 + d then none
      else readGroup (off + 1) (acc * 16 + d) s

/-- No number goes on with this text. -/
def Ends (s : Bytes) : Prop := ∀ c, s.head? = some c → hexValue c = none

theorem readGroup_ends {s : Bytes} (hs : Ends s) (off acc : Nat) :
    readGroup off acc s = some (off, acc, s) := by
  cases s with
  | nil => rfl
  | cons c s => simp [readGroup, hs c rfl]

/-- The number that digits spell, after `acc` is spelled already. -/
def spelled (acc : Nat) (ds : List Nat) : Nat := ds.foldl (fun acc d => acc * 16 + d) acc

/-- At most four digits are read as the number that they spell. -/
theorem readGroup_hexDigits {ds : List Nat} (hds : ∀ d ∈ ds, d < 16) {off acc : Nat}
    (hoff : off + ds.length ≤ 4) (hacc : acc < 16 ^ off) {s : Bytes} (hs : Ends s) :
    readGroup off acc (ds.map hexDigit ++ s) = some (off + ds.length, spelled acc ds, s) := by
  induction ds generalizing off acc with
  | nil => exact readGroup_ends hs off acc
  | cons d ds ih =>
    have hd : d < 16 := hds d List.mem_cons_self
    rw [List.length_cons] at hoff
    have hnext : acc * 16 + d < 16 ^ (off + 1) := by
      rw [Nat.pow_succ]
      omega
    have hfits : 16 ^ (off + 1) ≤ 16 ^ 4 := Nat.pow_le_pow_right (by decide) (by omega)
    have hrest := ih (fun x hx => hds x (List.mem_cons_of_mem d hx)) (by omega) hnext
    have hroom : ¬ 3 < off := by omega
    have hsmall : ¬ 0xFFFF < acc * 16 + d := by omega
    rw [List.map_cons, List.cons_append, readGroup, hexValue_hexDigit d hd]
    simp only [hroom, hsmall, if_false, hrest, spelled, List.foldl_cons, List.length_cons]
    congr 2
    omega

/-- The digits of a 16-bit number. -/
theorem appendHex_eq {x : Nat} (hx : x ≤ 0xFFFF) :
    ∃ ds : List Nat, appendHex x = ds.map hexDigit ∧ ds ≠ [] ∧ ds.length ≤ 4 ∧
      (∀ d ∈ ds, d < 16) ∧ spelled 0 ds = x := by
  have hwidth : x < 0x10 ∨ 0x10 ≤ x ∧ x < 0x100 ∨ 0x100 ≤ x ∧ x < 0x1000 ∨ 0x1000 ≤ x := by
    omega
  rcases hwidth with hlt | ⟨hle, hlt⟩ | ⟨hle, hlt⟩ | hle
  · have htwo : ¬ 0x10 ≤ x := by omega
    have hthree : ¬ 0x100 ≤ x := by omega
    have hfour : ¬ 0x1000 ≤ x := by omega
    refine ⟨[x % 16], ?_, by simp, by simp, by simp; omega, by simp [spelled]; omega⟩
    simp [appendHex, htwo, hthree, hfour]
  · have hthree : ¬ 0x100 ≤ x := by omega
    have hfour : ¬ 0x1000 ≤ x := by omega
    refine ⟨[x / 0x10 % 16, x % 16], ?_, by simp, by simp, by simp; omega,
      by simp [spelled]; omega⟩
    simp [appendHex, hle, hthree, hfour]
  · have htwo : 0x10 ≤ x := by omega
    have hfour : ¬ 0x1000 ≤ x := by omega
    refine ⟨[x / 0x100 % 16, x / 0x10 % 16, x % 16], ?_, by simp, by simp, by simp; omega,
      by simp [spelled]; omega⟩
    simp [appendHex, htwo, hle, hfour]
  · have htwo : 0x10 ≤ x := by omega
    have hthree : 0x100 ≤ x := by omega
    refine ⟨[x / 0x1000, x / 0x100 % 16, x / 0x10 % 16, x % 16], ?_, by simp, by simp,
      by simp; omega, by simp [spelled]; omega⟩
    simp [appendHex, htwo, hthree, hle]

/-- A number that is written is read back. -/
theorem readGroup_appendHex {x : Nat} (hx : x ≤ 0xFFFF) {s : Bytes} (hs : Ends s) :
    ∃ off, off ≠ 0 ∧ readGroup 0 0 (appendHex x ++ s) = some (off, x, s) := by
  obtain ⟨ds, heq, hne, hlen, hds, hx⟩ := appendHex_eq hx
  refine ⟨ds.length, fun h => hne (List.length_eq_zero_iff.1 h), ?_⟩
  rw [heq, readGroup_hexDigits hds (by omega) (by decide) hs, hx, Nat.zero_add]

theorem appendHex_digits {x : Nat} (hx : x ≤ 0xFFFF) :
    ∀ c ∈ appendHex x, ∃ d, d < 16 ∧ c = hexDigit d := by
  obtain ⟨ds, heq, -, -, hds, -⟩ := appendHex_eq hx
  intro c hc
  rw [heq] at hc
  obtain ⟨d, hd, rfl⟩ := List.mem_map.1 hc
  exact ⟨d, hds d hd, rfl⟩

theorem appendHex_ne_nil (x : Nat) : appendHex x ≠ [] := by
  unfold appendHex
  exact List.concat_ne_nil _ _

/-- What a digit is not: the other characters of an address. -/
theorem hexDigit_ne : ∀ d, d < 16 →
    hexDigit d ≠ 0x25 ∧ hexDigit d ≠ 0x2E ∧ hexDigit d ≠ 0x3A ∧ hexDigit d ≠ 0x5B := by decide

end Hex
