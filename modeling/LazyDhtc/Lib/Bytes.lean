-- SUMMARY: Byte strings as big-endian numbers, their bitwise xor, and in-place copies between parts of a list.
import Mathlib.Data.Nat.Bitwise
import Mathlib.Data.List.Basic

/-!
# Byte strings

Byte strings are lists of bytes. The first part reads them as big-endian numbers
and relates the xor of byte strings to the xor of the numbers; the second part is
the `copy` of a slice into a range of another.
-/

abbrev Bytes := List UInt8

/-- The bytes of an ASCII text. -/
def ascii (s : String) : Bytes := s.toList.map fun c => .ofNat c.toNat

/-! ## Big-endian numbers -/

/-- The number a byte string spells, most significant byte first. -/
def beNat : Bytes → Nat
  | [] => 0
  | b :: bs => b.toNat * 256 ^ bs.length + beNat bs

/-- The bytewise xor of two byte strings of one length. -/
def xorBytes (xs ys : Bytes) : Bytes := List.zipWith (· ^^^ ·) xs ys

/-- The number of bits needed to write a byte, `0` for the zero byte. -/
def len8 (x : UInt8) : Nat := if x = 0 then 0 else x.toNat.log2 + 1

theorem pow_256 (n : Nat) : 256 ^ n = 2 ^ (8 * n) := by
  rw [show (256 : Nat) = 2 ^ 8 from rfl, ← Nat.pow_mul]

theorem beNat_lt (bs : Bytes) : beNat bs < 256 ^ bs.length := by
  induction bs with
  | nil => simp [beNat]
  | cons b bs ih =>
    have hb : b.toNat + 1 ≤ 256 := b.toNat_lt
    have hmul := Nat.mul_le_mul_right (256 ^ bs.length) hb
    simp only [beNat, List.length_cons, Nat.pow_succ]
    rw [Nat.add_mul, Nat.one_mul, Nat.mul_comm 256] at hmul
    omega

/-- A xor of two-part numbers is taken part by part. -/
theorem two_pow_mul_add_xor {k a b r s : Nat} (hr : r < 2 ^ k) (hs : s < 2 ^ k) :
    (2 ^ k * a + r) ^^^ (2 ^ k * b + s) = 2 ^ k * (a ^^^ b) + (r ^^^ s) := by
  apply Nat.eq_of_testBit_eq
  intro i
  have hrs : r ^^^ s < 2 ^ k := Nat.xor_lt_two_pow hr hs
  rw [Nat.testBit_xor, Nat.testBit_two_pow_mul_add _ hr, Nat.testBit_two_pow_mul_add _ hs,
    Nat.testBit_two_pow_mul_add _ hrs]
  by_cases h : i < k <;> simp [h]

theorem beNat_xorBytes {xs ys : Bytes} (h : xs.length = ys.length) :
    beNat (xorBytes xs ys) = beNat xs ^^^ beNat ys := by
  induction xs generalizing ys with
  | nil =>
    cases ys with
    | nil => rfl
    | cons y ys => simp at h
  | cons x xs ih =>
    cases ys with
    | nil => simp at h
    | cons y ys =>
      have hlen : xs.length = ys.length := by simpa using h
      have hxs : beNat xs < 2 ^ (8 * ys.length) := by
        rw [← pow_256, ← hlen]; exact beNat_lt xs
      have hys : beNat ys < 2 ^ (8 * ys.length) := by
        rw [← pow_256]; exact beNat_lt ys
      have hzip : (List.zipWith (· ^^^ ·) xs ys).length = ys.length := by simp [hlen]
      have ih' : beNat (List.zipWith (· ^^^ ·) xs ys) = beNat xs ^^^ beNat ys := ih hlen
      simp only [xorBytes, List.zipWith_cons_cons, beNat, hzip, ih', hlen, pow_256,
        UInt8.toNat_xor]
      rw [Nat.mul_comm x.toNat, Nat.mul_comm y.toNat, two_pow_mul_add_xor hxs hys,
        Nat.mul_comm]

/-- The leading nonzero byte of a number fixes its binary length. -/
theorem beNat_cons_bounds {b : UInt8} (bs : Bytes) (hb : b ≠ 0) :
    2 ^ (bs.length * 8 + len8 b - 1) ≤ beNat (b :: bs) ∧
      beNat (b :: bs) < 2 ^ (bs.length * 8 + len8 b) := by
  have hne : b.toNat ≠ 0 := fun h => hb (UInt8.toNat_inj.1 h)
  have hlo : 2 ^ b.toNat.log2 ≤ b.toNat := Nat.log2_self_le hne
  have hhi : b.toNat + 1 ≤ 2 ^ (b.toNat.log2 + 1) := Nat.lt_log2_self
  have hbs := beNat_lt bs
  have hexp : 2 ^ (bs.length * 8) = 256 ^ bs.length := by rw [pow_256, Nat.mul_comm]
  simp only [len8, hb, if_false, beNat]
  constructor
  · rw [show bs.length * 8 + (b.toNat.log2 + 1) - 1 = b.toNat.log2 + bs.length * 8 by omega,
      Nat.pow_add, hexp]
    exact (Nat.mul_le_mul_right _ hlo).trans (Nat.le_add_right _ _)
  · rw [Nat.add_comm (bs.length * 8), Nat.pow_add, hexp]
    have hmul := Nat.mul_le_mul_right (256 ^ bs.length) hhi
    rw [Nat.add_mul, Nat.one_mul] at hmul
    omega

theorem len8_le (x : UInt8) : len8 x ≤ 8 := by
  unfold len8
  split
  · omega
  · next h =>
    have hne : x.toNat ≠ 0 := fun h' => h (UInt8.toNat_inj.1 h')
    have : x.toNat.log2 < 8 := (Nat.log2_lt hne).2 x.toNat_lt
    omega

/-! ## Copies -/

/-- `copy(xs[lo:hi], src)`: the range is overwritten by as much of `src` as fits. -/
def copySlice {α : Type*} (xs : List α) (lo hi : Nat) (src : List α) : List α :=
  xs.take lo ++ src.take (hi - lo) ++ xs.drop (lo + min (hi - lo) src.length)

/-- `copy(dst[:], src)` into an array of length `n`: cut off or padded with zeros. -/
def padTo (n : Nat) (src : Bytes) : Bytes :=
  src.take n ++ List.replicate (n - src.length) 0

@[simp] theorem length_padTo (n : Nat) (src : Bytes) : (padTo n src).length = n := by
  simp only [padTo, List.length_append, List.length_take, List.length_replicate]
  omega

theorem padTo_of_length {n : Nat} {src : Bytes} (h : src.length = n) : padTo n src = src := by
  simp [padTo, ← h]
