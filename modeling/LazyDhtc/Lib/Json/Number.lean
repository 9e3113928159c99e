-- SUMMARY: JSON number literals: their grammar as an automaton, integers as literals, and reading them back.
import LazyDhtc.Lib.Bytes
import Mathlib.Data.Nat.Digits.Lemmas

/-!
# JSON numbers

A number stays the text that spells it until somebody asks for a value of some type. The
grammar is an automaton that runs over the text as far as it can.
-/

namespace Json

/-! ## The grammar -/

/-- What of a number literal has been read. -/
inductive NumState where
  | start
  | neg
  | zero
  | int
  | dot
  | frac
  | exp
  | expSign
  | expDigits
deriving DecidableEq

def isDigit (b : UInt8) : Bool := 48 ≤ b && b ≤ 57

def numStep : NumState → UInt8 → Option NumState
  | .start, b =>
    if b = 45 then some .neg else if b = 48 then some .zero else if isDigit b then some .int else none
  | .neg, b => if b = 48 then some .zero else if isDigit b then some .int else none
  | .zero, b => if b = 46 then some .dot else if b = 101 ∨ b = 69 then some .exp else none
  | .int, b =>
    if isDigit b then some .int
    else if b = 46 then some .dot
    else if b = 101 ∨ b = 69 then some .exp
    else none
  | .dot, b => if isDigit b then some .frac else none
  | .frac, b => if isDigit b then some .frac else if b = 101 ∨ b = 69 then some .exp else none
  | .exp, b => if b = 43 ∨ b = 45 then some .expSign else if isDigit b then some .expDigits else none
  | .expSign, b => if isDigit b then some .expDigits else none
  | .expDigits, b => if isDigit b then some .expDigits else none

def NumState.accepting : NumState → Bool
  | .zero | .int | .frac | .expDigits => true
  | _ => false

/-- The literal that a text starts with, and the rest of the text. -/
def scanNumber : NumState → Bytes → Option (Bytes × Bytes)
  | st, [] => if st.accepting then some ([], []) else none
  | st, b :: s =>
    match numStep st b with
    | some st' => (scanNumber st' s).map fun p => (b :: p.1, p.2)
    | none => if st.accepting then some ([], b :: s) else none

/-- No literal goes on with this text. -/
def Stops : Bytes → Prop
  | [] => True
  | b :: _ => ∀ st : NumState, st.accepting = true → numStep st b = none

theorem scanNumber_step {st st' : NumState} {b : UInt8} (h : numStep st b = some st') (s : Bytes) :
    scanNumber st (b :: s) = (scanNumber st' s).map fun p => (b :: p.1, p.2) := by
  simp [scanNumber, h]

theorem scanNumber_stop {st : NumState} {s : Bytes} (hst : st.accepting = true) (hs : Stops s) :
    scanNumber st s = some ([], s) := by
  cases s with
  | nil => simp [scanNumber, hst]
  | cons b s => simp [scanNumber, hs st hst, hst]

/-- A scanned literal is one by itself. -/
theorem scanNumber_lit {st : NumState} {s lit r : Bytes} (h : scanNumber st s = some (lit, r)) :
    scanNumber st lit = some (lit, []) := by
  induction s generalizing st lit with
  | nil =>
    simp only [scanNumber] at h
    split at h
    · next hacc =>
      cases h
      simp [scanNumber, hacc]
    · cases h
  | cons b s ih =>
    simp only [scanNumber] at h
    split at h
    · next st' hstep =>
      obtain ⟨⟨lit', r'⟩, hscan, heq⟩ := Option.map_eq_some_iff.1 h
      cases heq
      simp [scanNumber_step hstep, ih hscan]
    · split at h
      · next hacc =>
        cases h
        simp [scanNumber, hacc]
      · cases h

/-- A literal is scanned up to where it stops. -/
theorem scanNumber_append {st : NumState} {lit t : Bytes}
    (h : scanNumber st lit = some (lit, [])) (ht : Stops t) :
    scanNumber st (lit ++ t) = some (lit, t) := by
  induction lit generalizing st with
  | nil =>
    simp only [scanNumber] at h
    split at h
    · next hacc => exact scanNumber_stop hacc ht
    · cases h
  | cons b lit ih =>
    simp only [scanNumber] at h
    split at h
    · next st' hstep =>
      obtain ⟨⟨lit', r'⟩, hscan, heq⟩ := Option.map_eq_some_iff.1 h
      simp only [Prod.mk.injEq, List.cons.injEq, true_and] at heq
      obtain ⟨rfl, rfl⟩ := heq
      rw [List.cons_append, scanNumber_step hstep, ih hscan]
      rfl
    · split at h <;> simp at h

/-- A scan that stops before the end of the text is stable under more text. -/
theorem scanNumber_stable {st : NumState} {s lit r : Bytes} (t : Bytes)
    (h : scanNumber st s = some (lit, r)) (hr : r ≠ []) :
    scanNumber st (s ++ t) = some (lit, r ++ t) := by
  induction s generalizing st lit with
  | nil =>
    simp only [scanNumber] at h
    split at h
    · cases h
      exact absurd rfl hr
    · cases h
  | cons b s ih =>
    simp only [scanNumber] at h
    split at h
    · next st' hstep =>
      obtain ⟨⟨lit', r'⟩, hscan, heq⟩ := Option.map_eq_some_iff.1 h
      cases heq
      rw [List.cons_append, scanNumber_step hstep, ih hscan]
      rfl
    · next hstep =>
      split at h
      · next hacc =>
        cases h
        simp [scanNumber, hstep, hacc]
      · cases h

/-! ## Literals -/

/-- A well-formed number literal. -/
@[ext] structure Number where
  lit : Bytes
  wf : scanNumber .start lit = some (lit, [])

def Number.parse (s : Bytes) : Option (Number × Bytes) :=
  match h : scanNumber .start s with
  | some (lit, r) => some (⟨lit, scanNumber_lit h⟩, r)
  | none => none

theorem Number.parse_eq_some {s r : Bytes} {n : Number} :
    Number.parse s = some (n, r) ↔ scanNumber .start s = some (n.lit, r) := by
  unfold Number.parse
  split
  · next lit r' h =>
    simp only [Option.some.injEq, Prod.mk.injEq, Number.ext_iff, h]
  · next h => simp [h]

theorem Number.parse_append (n : Number) {t : Bytes} (ht : Stops t) :
    Number.parse (n.lit ++ t) = some (n, t) :=
  Number.parse_eq_some.2 (scanNumber_append n.wf ht)

theorem Number.lit_head (n : Number) : ∃ b s, n.lit = b :: s ∧ (b = 45 ∨ isDigit b = true) := by
  obtain ⟨lit, wf⟩ := n
  cases lit with
  | nil => cases wf
  | cons b s =>
    refine ⟨b, s, rfl, ?_⟩
    simp only [scanNumber, numStep] at wf
    split at wf
    · next hstep =>
      split_ifs at hstep with hneg hzero hdigit
      · exact .inl hneg
      · exact .inr (by rw [hzero]; decide)
      · exact .inr hdigit
    · cases wf

/-! ## Integers -/

def digitChar (d : Nat) : UInt8 := .ofNat (48 + d)

/-- The decimal digits of a number. -/
def decimal (n : Nat) : Bytes :=
  if n = 0 then [48] else (Nat.digits 10 n).reverse.map digitChar

theorem decimal_step {n : Nat} (hn : n ≠ 0) :
    decimal n = (if n / 10 = 0 then [] else decimal (n / 10)) ++ [digitChar (n % 10)] := by
  have hdigits := Nat.digits_def' (by decide : 1 < 10) (Nat.pos_of_ne_zero hn)
  simp only [decimal, hn, if_false, hdigits, List.reverse_cons, List.map_append, List.map_cons,
    List.map_nil]
  split_ifs with hzero
  · simp [hzero]
  · rfl

theorem isDigit_digitChar {d : Nat} (h : d < 10) : isDigit (digitChar d) = true := by
  revert d
  decide

theorem scanNumber_decimal {st : NumState} (hst : st = .start ∨ st = .neg) {n : Nat} (hn : n ≠ 0)
    (t : Bytes) : scanNumber st (decimal n ++ t) =
      (scanNumber .int t).map fun p => (decimal n ++ p.1, p.2) := by
  induction n using Nat.strong_induction_on generalizing t with
  | _ n ih =>
    have hmod : n % 10 < 10 := Nat.mod_lt _ (by decide)
    have hdigit : numStep .int (digitChar (n % 10)) = some .int := by
      simp [numStep, isDigit_digitChar hmod]
    rw [decimal_step hn]
    split_ifs with hzero
    · have hfirst : ∀ d, d < 10 → d ≠ 0 → numStep .start (digitChar d) = some .int ∧
          numStep .neg (digitChar d) = some .int := by decide
      obtain ⟨hstart, hneg⟩ := hfirst (n % 10) hmod (by omega)
      rcases hst with rfl | rfl
      · exact scanNumber_step hstart t
      · exact scanNumber_step hneg t
    · rw [List.append_assoc, ih (n / 10) (by omega) hzero, List.singleton_append,
        scanNumber_step hdigit, Option.map_map]
      simp [Function.comp_def]

theorem scanNumber_decimal_self {st : NumState} (hst : st = .start ∨ st = .neg) (n : Nat) :
    scanNumber st (decimal n) = some (decimal n, []) := by
  by_cases hn : n = 0
  · subst hn
    rcases hst with rfl | rfl <;> decide
  · have h := scanNumber_decimal hst hn []
    rw [List.append_nil] at h
    rw [h]
    simp [scanNumber, NumState.accepting]

def Number.ofNat (n : Nat) : Number := ⟨decimal n, scanNumber_decimal_self (.inl rfl) n⟩

def Number.ofInt : Int → Number
  | .ofNat n => .ofNat n
  | .negSucc n =>
    ⟨45 :: decimal (n + 1), by
      have hneg : numStep .start 45 = some .neg := by decide
      rw [scanNumber_step hneg, scanNumber_decimal_self (.inr rfl)]
      rfl⟩

/-! ## Reading -/

def digitValue (c : UInt8) : Option Nat := if isDigit c then some (c.toNat - 48) else none

def readDigits (s : Bytes) (n : Nat) : Option Nat :=
  s.foldlM (fun n c => (digitValue c).map fun d => n * 10 + d) n

/-- A number that is written with digits only. -/
def readNat (s : Bytes) : Option Nat := if s = [] then none else readDigits s 0

/-- A number that is written with digits, after a minus sign or none. -/
def readInt : Bytes → Option Int
  | 45 :: s => (readNat s).map fun n => -Int.ofNat n
  | s => (readNat s).map Int.ofNat

theorem decimal_ne_nil (n : Nat) : decimal n ≠ [] := by
  by_cases hn : n = 0
  · subst hn
    decide
  · rw [decimal_step hn]
    simp

theorem digitValue_digitChar {d : Nat} (h : d < 10) : digitValue (digitChar d) = some d := by
  revert d
  decide

theorem readDigits_decimal {n : Nat} (hn : n ≠ 0) : readDigits (decimal n) 0 = some n := by
  induction n using Nat.strong_induction_on with
  | _ n ih =>
    have hmod : n % 10 < 10 := Nat.mod_lt _ (by decide)
    rw [decimal_step hn]
    split_ifs with hzero
    · simp only [readDigits, List.nil_append, List.foldlM_cons, List.foldlM_nil,
        digitValue_digitChar hmod, Option.map_some, Option.bind_eq_bind, Option.bind_some,
        Option.pure_def, Option.some.injEq]
      omega
    · have hrest := ih (n / 10) (by omega) hzero
      simp only [readDigits] at hrest
      simp only [readDigits, List.foldlM_append, hrest, List.foldlM_cons, List.foldlM_nil,
        digitValue_digitChar hmod, Option.map_some, Option.bind_eq_bind, Option.bind_some,
        Option.pure_def, Option.some.injEq]
      omega

theorem readNat_decimal (n : Nat) : readNat (decimal n) = some n := by
  rw [readNat, if_neg (decimal_ne_nil n)]
  by_cases hn : n = 0
  · subst hn
    decide
  · exact readDigits_decimal hn

theorem decimal_digits (n : Nat) : ∀ b ∈ decimal n, isDigit b = true := by
  by_cases hn : n = 0
  · subst hn
    exact List.forall_mem_singleton.2 (by decide)
  · intro b hb
    simp only [decimal, hn, if_false, List.mem_map, List.mem_reverse] at hb
    obtain ⟨d, hd, rfl⟩ := hb
    exact isDigit_digitChar (Nat.digits_lt_base (by decide) hd)

theorem readNat_ofNat (n : Nat) : readNat (Number.ofNat n).lit = some n := readNat_decimal n

theorem readInt_ofInt (i : Int) : readInt (Number.ofInt i).lit = some i := by
  cases i with
  | ofNat n =>
    have hread := readNat_decimal n
    unfold readInt
    split
    · next s heq =>
      have hdigit := decimal_digits n 45 (by
        change decimal n = 45 :: s at heq
        rw [heq]
        exact List.mem_cons_self)
      exact absurd hdigit (by decide)
    · exact congrArg (Option.map _) hread
  | negSucc n =>
    change (readNat (decimal (n + 1))).map (fun n => -Int.ofNat n) = _
    rw [readNat_decimal]
    rfl

/-! ## Length -/

/-- The number of decimal digits of a number. -/
def digitCount (n : Nat) : Nat := Nat.log 10 n + 1

theorem length_decimal (n : Nat) : (decimal n).length = digitCount n := by
  by_cases hn : n = 0
  · subst hn
    rfl
  · simp [decimal, hn, digitCount, Nat.length_digits 10 n (by decide) hn]

end Json
