-- SUMMARY: SHA-1 of a byte string, on numbers below 2 ^ 32.
import LazyDhtc.Lib.Bytes

/-!
# SHA-1

The words of 32 bits are natural numbers.
-/

namespace Sha1

/-! ## Words -/

def wordSize : Nat := 2 ^ 32

def rotl (n x : Nat) : Nat := (x <<< n ||| x >>> (32 - n)) % wordSize

/-- The bytes of a number, `n` of them, most significant first. -/
def bytesOf : Nat → Nat → Bytes
  | 0, _ => []
  | n + 1, x => bytesOf n (x / 256) ++ [.ofNat x]

@[simp] theorem length_bytesOf (n x : Nat) : (bytesOf n x).length = n := by
  induction n generalizing x with
  | zero => rfl
  | succ n ih => rw [bytesOf, List.length_append, ih]; rfl

/-! ## Blocks -/

/-- The message with a one bit, zeros, and its length in bits. -/
def padded (bs : Bytes) : Bytes :=
  bs ++ 0x80 :: List.replicate ((119 - bs.length % 64) % 64) 0 ++ bytesOf 8 (bs.length * 8)

/-- The words of a block, and its 64 further words, the last one first. -/
def extend : Nat → List Nat → List Nat
  | 0, ws => ws
  | n + 1, ws =>
    extend n (rotl 1 (ws.getD 2 0 ^^^ ws.getD 7 0 ^^^ ws.getD 13 0 ^^^ ws.getD 15 0) :: ws)

def schedule (block : Bytes) : List Nat :=
  let words := (List.range 16).map fun i => beNat ((block.drop (4 * i)).take 4)
  (extend 64 words.reverse).reverse

/-! ## Rounds -/

structure Digest where
  a : Nat
  b : Nat
  c : Nat
  d : Nat
  e : Nat

def initial : Digest := ⟨0x67452301, 0xEFCDAB89, 0x98BADCFE, 0x10325476, 0xC3D2E1F0⟩

def complement (x : Nat) : Nat := x ^^^ (wordSize - 1)

/-- The function and the constant of round `t`. -/
def mix (t b c d : Nat) : Nat :=
  if t < 20 then (b &&& c ||| complement b &&& d) + 0x5A827999
  else if t < 40 then (b ^^^ c ^^^ d) + 0x6ED9EBA1
  else if t < 60 then (b &&& c ||| b &&& d ||| c &&& d) + 0x8F1BBCDC
  else (b ^^^ c ^^^ d) + 0xCA62C1D6

def round (s : Digest) (w : Nat × Nat) : Digest :=
  ⟨(rotl 5 s.a + mix w.2 s.b s.c s.d + s.e + w.1) % wordSize, s.a, rotl 30 s.b, s.c, s.d⟩

def compress (s : Digest) (block : Bytes) : Digest :=
  let s' := (schedule block).zipIdx.foldl round s
  ⟨(s.a + s'.a) % wordSize, (s.b + s'.b) % wordSize, (s.c + s'.c) % wordSize,
    (s.d + s'.d) % wordSize, (s.e + s'.e) % wordSize⟩

/-! ## The sum -/

def digest (bs : Bytes) : Digest :=
  ((List.range ((padded bs).length / 64)).map fun i => ((padded bs).drop (64 * i)).take 64).foldl
    compress initial

/-- `sha1.Sum` -/
def sum (bs : Bytes) : Bytes :=
  let s := digest bs
  bytesOf 4 s.a ++ bytesOf 4 s.b ++ bytesOf 4 s.c ++ bytesOf 4 s.d ++ bytesOf 4 s.e

theorem length_sum (bs : Bytes) : (sum bs).length = 20 := by
  simp [sum]

example : sum (ascii "abc") =
    [0xA9, 0x99, 0x3E, 0x36, 0x47, 0x06, 0x81, 0x6A, 0xBA, 0x3E, 0x25, 0x71, 0x78, 0x50, 0xC2,
      0x6C, 0x9C, 0xD0, 0xD8, 0x9D] := by
  decide +kernel

end Sha1
