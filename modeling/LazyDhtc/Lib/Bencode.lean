-- SUMMARY: Bencoded values: integers, byte strings, lists and dictionaries as text, and reading them back.
import LazyDhtc.Lib.Json.Number

/-!
# Bencoding

`encode` writes a value, `decode` reads a whole text. A dictionary is the list of its
members in the order in which they are written.
-/

namespace Bencode

open Json

inductive Value where
  | int (n : Int)
  | str (s : Bytes)
  | list (vs : List Value)
  | dict (ms : List (Bytes × Value))

/-! ## Encoding -/

/-- A byte string after its length and a colon. -/
def encodeStr (s : Bytes) : Bytes := decimal s.length ++ 0x3A :: s

mutual

def encode : Value → Bytes
  | .int n => 0x69 :: ((Number.ofInt n).lit ++ [0x65])
  | .str s => encodeStr s
  | .list vs => 0x6C :: encodeElems vs
  | .dict ms => 0x64 :: encodeMembers ms

/-- The elements of a list and its end. -/
def encodeElems : List Value → Bytes
  | [] => [0x65]
  | v :: vs => encode v ++ encodeElems vs

/-- The members of a dictionary and its end. -/
def encodeMembers : List (Bytes × Value) → Bytes
  | [] => [0x65]
  | (k, v) :: ms => encodeStr k ++ (encode v ++ encodeMembers ms)

end

/-! ## Decoding -/

/-- A byte string at the start of a text, and the rest of the text. -/
def parseStr (s : Bytes) : Option (Bytes × Bytes) :=
  match s.dropWhile isDigit with
  | [] => none
  | c :: rest =>
    if c = 0x3A then
      match readNat (s.takeWhile isDigit) with
      | none => none
      | some n => if n ≤ rest.length then some (rest.take n, rest.drop n) else none
    else none

/-- An integer after its first letter. -/
def parseInt (s : Bytes) : Option (Value × Bytes) :=
  match s.dropWhile (· ≠ 0x65) with
  | [] => none
  | _ :: rest => (readInt (s.takeWhile (· ≠ 0x65))).map fun n => (.int n, rest)

/-- The elements of a list, which are read with `pv`. -/
def parseElems (pv : Bytes → Option (Value × Bytes)) : Nat → Bytes → Option (List Value × Bytes)
  | 0, _ => none
  | _ + 1, [] => none
  | fuel + 1, c :: s =>
    if c = 0x65 then some ([], s)
    else
      match pv (c :: s) with
      | none => none
      | some (v, s) => (parseElems pv fuel s).map fun p => (v :: p.1, p.2)

/-- The members of a dictionary. -/
def parseMembers (pv : Bytes → Option (Value × Bytes)) :
    Nat → Bytes → Option (List (Bytes × Value) × Bytes)
  | 0, _ => none
  | _ + 1, [] => none
  | fuel + 1, c :: s =>
    if c = 0x65 then some ([], s)
    else
      match parseStr (c :: s) with
      | none => none
      | some (k, s) =>
        match pv s with
        | none => none
        | some (v, s) => (parseMembers pv fuel s).map fun p => ((k, v) :: p.1, p.2)

/-- A value at the start of a text. Every value inside another one is shorter than that, so
    the length of the text is `fuel` enough. -/
def parse : Nat → Bytes → Option (Value × Bytes)
  | 0, _ => none
  | _ + 1, [] => none
  | fuel + 1, c :: s =>
    if c = 0x69 then parseInt s
    else if c = 0x6C then (parseElems (parse fuel) s.length s).map fun p => (.list p.1, p.2)
    else if c = 0x64 then (parseMembers (parse fuel) s.length s).map fun p => (.dict p.1, p.2)
    else (parseStr (c :: s)).map fun p => (.str p.1, p.2)

/-- The value that a text spells, with nothing after it. -/
def decode (s : Bytes) : Option Value :=
  match parse s.length s with
  | some (v, []) => some v
  | _ => none

/-! ## Round trip -/

theorem encodeStr_head (s : Bytes) : ∃ c r, encodeStr s = c :: r ∧ isDigit c = true := by
  obtain ⟨c, r, hdec⟩ := List.exists_cons_of_ne_nil (decimal_ne_nil s.length)
  refine ⟨c, r ++ 0x3A :: s, by rw [encodeStr, hdec]; rfl, ?_⟩
  exact decimal_digits s.length c (by rw [hdec]; exact List.mem_cons_self)

theorem parseStr_encodeStr (s t : Bytes) : parseStr (encodeStr s ++ t) = some (s, t) := by
  have hdigits := decimal_digits s.length
  have hcolon : isDigit 0x3A = false := by decide
  have hsplit : encodeStr s ++ t = decimal s.length ++ 0x3A :: (s ++ t) := by simp [encodeStr]
  rw [parseStr, hsplit, List.dropWhile_append_of_pos hdigits, List.takeWhile_append_of_pos hdigits]
  simp [hcolon, readNat_decimal]

/-- The letter that ends an integer is not in its text. -/
theorem end_notMem_ofInt (n : Int) : ∀ c ∈ (Number.ofInt n).lit, decide (c ≠ 0x65) = true := by
  have hdigit : ∀ m, ∀ c ∈ decimal m, decide (c ≠ 0x65) = true := by
    intro m c hc
    have h := decimal_digits m c hc
    rw [decide_eq_true_eq]
    rintro rfl
    exact absurd h (by decide)
  cases n with
  | ofNat n => exact hdigit n
  | negSucc n =>
    intro c hc
    rcases List.mem_cons.1 hc with rfl | hc
    · decide
    · exact hdigit _ c hc

theorem parseInt_ofInt (n : Int) (t : Bytes) :
    parseInt ((Number.ofInt n).lit ++ 0x65 :: t) = some (.int n, t) := by
  have hend := end_notMem_ofInt n
  have hread := readInt_ofInt n
  rw [parseInt, List.dropWhile_append_of_pos hend, List.takeWhile_append_of_pos hend]
  simp [hread]

/-- A value starts with a letter of its own or with a digit. -/
theorem encode_head (v : Value) :
    ∃ c r, encode v = c :: r ∧ c ≠ 0x65 := by
  cases v with
  | int n => exact ⟨_, _, by rw [encode], by decide⟩
  | str s =>
    obtain ⟨c, r, heq, hdigit⟩ := encodeStr_head s
    refine ⟨c, r, by rw [encode, heq], ?_⟩
    rintro rfl
    exact absurd hdigit (by decide)
  | list vs => exact ⟨_, _, by rw [encode], by decide⟩
  | dict ms => exact ⟨_, _, by rw [encode], by decide⟩

theorem parseElems_cons {pv : Bytes → Option (Value × Bytes)} {v : Value} {vs : List Value}
    {fuel : Nat} {s t : Bytes} (hpv : pv (encode v ++ s) = some (v, s))
    (hrest : parseElems pv fuel s = some (vs, t)) :
    parseElems pv (fuel + 1) (encode v ++ s) = some (v :: vs, t) := by
  obtain ⟨c, r, heq, hc⟩ := encode_head v
  rw [heq, List.cons_append] at hpv ⊢
  simp [parseElems, hc, hpv, hrest]

theorem parseMembers_cons {pv : Bytes → Option (Value × Bytes)} {k : Bytes} {v : Value}
    {ms : List (Bytes × Value)} {fuel : Nat} {s t : Bytes} (hpv : pv (encode v ++ s) = some (v, s))
    (hrest : parseMembers pv fuel s = some (ms, t)) :
    parseMembers pv (fuel + 1) (encodeStr k ++ (encode v ++ s)) = some ((k, v) :: ms, t) := by
  have hkey := parseStr_encodeStr k (encode v ++ s)
  obtain ⟨c, r, heq, hdigit⟩ := encodeStr_head k
  have hc : c ≠ 0x65 := by
    rintro rfl
    exact absurd hdigit (by decide)
  rw [heq, List.cons_append] at hkey ⊢
  simp [parseMembers, hc, hkey, hpv, hrest]

theorem length_encode_pos (v : Value) : 0 < (encode v).length := by
  obtain ⟨c, r, heq, -⟩ := encode_head v
  rw [heq]
  exact Nat.succ_pos _

mutual

theorem parse_encode (v : Value) {fuel : Nat} (hfuel : (encode v).length ≤ fuel) (t : Bytes) :
    parse fuel (encode v ++ t) = some (v, t) := by
  obtain ⟨fuel, rfl⟩ := Nat.exists_eq_succ_of_ne_zero
    (Nat.ne_of_gt ((length_encode_pos v).trans_le hfuel))
  match v with
  | .int n =>
    rw [encode, List.cons_append, List.append_assoc]
    exact parseInt_ofInt n t
  | .str s =>
    have hstr := parseStr_encodeStr s t
    obtain ⟨c, r, heq, hdigit⟩ := encodeStr_head s
    have hne : ∀ b : UInt8, isDigit b = false → c ≠ b := by
      rintro b hb rfl
      exact absurd hdigit (by simp [hb])
    rw [heq, List.cons_append] at hstr
    rw [encode, heq, List.cons_append]
    simp [parse, hne 0x69 (by decide), hne 0x6C (by decide), hne 0x64 (by decide), hstr]
  | .list vs =>
    rw [encode, List.length_cons] at hfuel
    have hlen : (encodeElems vs).length ≤ (encodeElems vs ++ t).length := by simp
    have helems := parseElems_encode vs (Nat.le_of_succ_le_succ hfuel) hlen t
    rw [encode, List.cons_append]
    simp only [parse, helems]
    rfl
  | .dict ms =>
    rw [encode, List.length_cons] at hfuel
    have hlen : (encodeMembers ms).length ≤ (encodeMembers ms ++ t).length := by simp
    have hmembers := parseMembers_encode ms (Nat.le_of_succ_le_succ hfuel) hlen t
    rw [encode, List.cons_append]
    simp only [parse, hmembers]
    rfl

theorem parseElems_encode (vs : List Value) {depth : Nat} (hdepth : (encodeElems vs).length ≤ depth)
    {fuel : Nat} (hfuel : (encodeElems vs).length ≤ fuel) (t : Bytes) :
    parseElems (parse depth) fuel (encodeElems vs ++ t) = some (vs, t) := by
  match vs with
  | [] =>
    obtain ⟨fuel, rfl⟩ := Nat.exists_eq_succ_of_ne_zero (Nat.ne_zero_of_lt hfuel)
    simp [encodeElems, parseElems]
  | v :: vs =>
    have hpos := length_encode_pos v
    rw [encodeElems, List.length_append] at hdepth hfuel
    obtain ⟨fuel, rfl⟩ := Nat.exists_eq_succ_of_ne_zero (by omega : fuel ≠ 0)
    rw [encodeElems, List.append_assoc]
    refine parseElems_cons (parse_encode v (by omega) _) ?_
    exact parseElems_encode vs (by omega) (by omega) t

theorem parseMembers_encode (ms : List (Bytes × Value)) {depth : Nat}
    (hdepth : (encodeMembers ms).length ≤ depth) {fuel : Nat}
    (hfuel : (encodeMembers ms).length ≤ fuel) (t : Bytes) :
    parseMembers (parse depth) fuel (encodeMembers ms ++ t) = some (ms, t) := by
  match ms with
  | [] =>
    obtain ⟨fuel, rfl⟩ := Nat.exists_eq_succ_of_ne_zero (Nat.ne_zero_of_lt hfuel)
    simp [encodeMembers, parseMembers]
  | (k, v) :: ms =>
    have hpos := length_encode_pos v
    rw [encodeMembers, List.length_append, List.length_append] at hdepth hfuel
    obtain ⟨fuel, rfl⟩ := Nat.exists_eq_succ_of_ne_zero (by omega : fuel ≠ 0)
    rw [encodeMembers, List.append_assoc, List.append_assoc]
    refine parseMembers_cons (parse_encode v (by omega) _) ?_
    exact parseMembers_encode ms (by omega) (by omega) t

end

/-- A value that is written is read back. -/
theorem decode_encode (v : Value) : decode (encode v) = some v := by
  have h := parse_encode v le_rfl []
  rw [List.append_nil] at h
  rw [decode, h]

end Bencode
