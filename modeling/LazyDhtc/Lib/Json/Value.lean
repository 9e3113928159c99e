-- SUMMARY: JSON documents: Go's encoder, a parser, the round trip between them, and that no cut off document parses.
import LazyDhtc.Lib.Json.Text
import LazyDhtc.Lib.Json.Number

/-!
# JSON documents

`encode` writes a document the way Go's `encoding/json` does, without blanks.
`parseValue` reads one, nested at most as deep as it is told, and returns the rest of the
text.
-/

namespace Json

open Utf8

inductive Value where
  | null
  | bool (b : Bool)
  | num (n : Number)
  | str (s : Bytes)
  | arr (vs : List Value)
  | obj (ms : List (Bytes × Value))

/-! ## Encoding -/

mutual

def encode : Value → Bytes
  | .null => [110, 117, 108, 108]
  | .bool true => [116, 114, 117, 101]
  | .bool false => [102, 97, 108, 115, 101]
  | .num n => n.lit
  | .str s => quote s
  | .arr vs => 0x5B :: encodeElems vs
  | .obj ms => 0x7B :: encodeMembers ms

/-- The elements of an array and the closing bracket. -/
def encodeElems : List Value → Bytes
  | [] => [0x5D]
  | [v] => encode v ++ [0x5D]
  | v :: vs => encode v ++ 0x2C :: encodeElems vs

/-- The members of an object and the closing brace. -/
def encodeMembers : List (Bytes × Value) → Bytes
  | [] => [0x7D]
  | [(k, v)] => quote k ++ 0x3A :: (encode v ++ [0x7D])
  | (k, v) :: ms => quote k ++ 0x3A :: (encode v ++ 0x2C :: encodeMembers ms)

end

mutual

/-- A document with all its strings coerced to UTF-8. -/
def Value.coerce : Value → Value
  | .str s => .str (Utf8.coerce s)
  | .arr vs => .arr (coerceElems vs)
  | .obj ms => .obj (coerceMembers ms)
  | v => v

def coerceElems : List Value → List Value
  | [] => []
  | v :: vs => v.coerce :: coerceElems vs

def coerceMembers : List (Bytes × Value) → List (Bytes × Value)
  | [] => []
  | (k, v) :: ms => (Utf8.coerce k, v.coerce) :: coerceMembers ms

end

mutual

/-- How many arrays and objects of a document are inside each other. -/
def Value.depth : Value → Nat
  | .arr vs => depthElems vs + 1
  | .obj ms => depthMembers ms + 1
  | _ => 0

def depthElems : List Value → Nat
  | [] => 0
  | v :: vs => max v.depth (depthElems vs)

def depthMembers : List (Bytes × Value) → Nat
  | [] => 0
  | (_, v) :: ms => max v.depth (depthMembers ms)

end

/-! ## Parsing -/

def isSpace (b : UInt8) : Bool := b = 0x20 || b = 0x09 || b = 0x0A || b = 0x0D

def skipSpace (s : Bytes) : Bytes := s.dropWhile isSpace

/-- The value that the text `lit` stands for, if `s` starts with it. -/
def parseLit (lit : Bytes) (v : Value) (s : Bytes) : Option (Value × Bytes) :=
  if lit <+: s then some (v, s.drop lit.length) else none

/-- A value without other values inside. -/
def parseScalar : Bytes → Option (Value × Bytes)
  | [] => none
  | b :: s =>
    if b = 0x22 then (scanString s).map fun p => (.str (unquote p.1), p.2)
    else if b = 110 then parseLit [117, 108, 108] .null s
    else if b = 116 then parseLit [114, 117, 101] (.bool true) s
    else if b = 102 then parseLit [97, 108, 115, 101] (.bool false) s
    else (Number.parse (b :: s)).map fun p => (.num p.1, p.2)

/-- The elements of an array that has some, after its opening bracket. Each turn of the
    loop consumes a byte at least, so `fuel` is the length of the text. -/
def parseElems (pv : Bytes → Option (Value × Bytes)) :
    Nat → Bytes → Option (List Value × Bytes)
  | 0, _ => none
  | fuel + 1, s =>
    match pv (skipSpace s) with
    | none => none
    | some (v, s) =>
      match skipSpace s with
      | [] => none
      | b :: s =>
        if b = 0x2C then (parseElems pv fuel s).map fun p => (v :: p.1, p.2)
        else if b = 0x5D then some ([v], s)
        else none

/-- The key of a member and the colon after it. -/
def parseKey (s : Bytes) : Option (Bytes × Bytes) :=
  match skipSpace s with
  | [] => none
  | b :: s =>
    if b = 0x22 then
      match scanString s with
      | none => none
      | some (ts, s) =>
        match skipSpace s with
        | [] => none
        | b :: s => if b = 0x3A then some (unquote ts, s) else none
    else none

/-- The members of an object that has some, after its opening brace. -/
def parseMembers (pv : Bytes → Option (Value × Bytes)) :
    Nat → Bytes → Option (List (Bytes × Value) × Bytes)
  | 0, _ => none
  | fuel + 1, s =>
    match parseKey s with
    | none => none
    | some (k, s) =>
      match pv (skipSpace s) with
      | none => none
      | some (v, s) =>
        match skipSpace s with
        | [] => none
        | b :: s =>
          if b = 0x2C then (parseMembers pv fuel s).map fun p => ((k, v) :: p.1, p.2)
          else if b = 0x7D then some ([(k, v)], s)
          else none

/-- A value that starts at once, nested at most `depth` deep. -/
def parseValue : Nat → Bytes → Option (Value × Bytes)
  | 0, s => if s.head? = some 0x5B ∨ s.head? = some 0x7B then none else parseScalar s
  | depth + 1, s =>
    match s with
    | [] => none
    | b :: s =>
      if b = 0x5B then
        match skipSpace s with
        | 0x5D :: r => some (.arr [], r)
        | _ => (parseElems (parseValue depth) s.length s).map fun p => (.arr p.1, p.2)
      else if b = 0x7B then
        match skipSpace s with
        | 0x7D :: r => some (.obj [], r)
        | _ => (parseMembers (parseValue depth) s.length s).map fun p => (.obj p.1, p.2)
      else parseScalar (b :: s)

/-! ## Round trip -/

theorem skipSpace_cons {b : UInt8} (hb : isSpace b = false) (s : Bytes) :
    skipSpace (b :: s) = b :: s := by
  simp [skipSpace, hb]

/-- A document starts with a byte that is no blank and closes nothing. -/
theorem encode_head (v : Value) :
    ∃ b s, encode v = b :: s ∧ isSpace b = false ∧ b ≠ 0x5D ∧ b ≠ 0x7D := by
  cases v with
  | null => exact ⟨_, _, by rw [encode], by decide⟩
  | bool b => cases b <;> exact ⟨_, _, by rw [encode], by decide⟩
  | num n =>
    obtain ⟨b, s, hlit, hb⟩ := n.lit_head
    refine ⟨b, s, by rw [encode, hlit], ?_⟩
    have hall : ∀ b : UInt8, b = 45 ∨ isDigit b = true →
        isSpace b = false ∧ b ≠ 0x5D ∧ b ≠ 0x7D := by
      intro b
      simp only [isDigit, isSpace]
      rintro (rfl | hdigit)
      · decide
      · refine ⟨?_, ?_, ?_⟩ <;> grind
    exact hall b hb
  | str s => exact ⟨_, _, by rw [encode, quote], by decide⟩
  | arr vs => exact ⟨_, _, by rw [encode], by decide⟩
  | obj ms => exact ⟨_, _, by rw [encode], by decide⟩

theorem skipSpace_encode (v : Value) (t : Bytes) :
    skipSpace (encode v ++ t) = encode v ++ t := by
  obtain ⟨b, s, heq, hb, -⟩ := encode_head v
  rw [heq, List.cons_append, skipSpace_cons hb]

theorem stops_cons {b : UInt8} (hb : b = 0x2C ∨ b = 0x5D ∨ b = 0x7D ∨ b = 0x0A) (s : Bytes) :
    Stops (b :: s) := by
  intro st _
  rcases hb with rfl | rfl | rfl | rfl <;> cases st <;> rfl

theorem parseValue_scalar (depth : Nat) {b : UInt8} (harr : b ≠ 0x5B) (hobj : b ≠ 0x7B)
    (s : Bytes) : parseValue depth (b :: s) = parseScalar (b :: s) := by
  cases depth with
  | zero => simp [parseValue, harr, hobj]
  | succ depth => simp [parseValue, harr, hobj]

theorem parseScalar_quote (s t : Bytes) :
    parseScalar (quote s ++ t) = some (.str (Utf8.coerce s), t) := by
  obtain ⟨ts, hscan, hts⟩ := scanString_escape s t
  simp [quote, parseScalar, hscan, hts]

theorem parseScalar_number (n : Number) {t : Bytes} (ht : Stops t) :
    parseScalar (n.lit ++ t) = some (.num n, t) := by
  obtain ⟨b, s, hlit, hb⟩ := n.lit_head
  have hparse := n.parse_append ht
  have hne : ∀ b : UInt8, b = 45 ∨ isDigit b = true → b ≠ 0x22 ∧ b ≠ 110 ∧ b ≠ 116 ∧ b ≠ 102 := by
    intro b
    simp only [isDigit]
    grind
  obtain ⟨h₁, h₂, h₃, h₄⟩ := hne b hb
  rw [hlit, List.cons_append] at hparse ⊢
  simp [parseScalar, h₁, h₂, h₃, h₄, hparse]

theorem parseLit_append (lit : Bytes) (v : Value) (t : Bytes) :
    parseLit lit v (lit ++ t) = some (v, t) := by
  simp [parseLit]

theorem parseKey_quote (k t : Bytes) :
    parseKey (quote k ++ 0x3A :: t) = some (Utf8.coerce k, t) := by
  obtain ⟨ts, hscan, hts⟩ := scanString_escape k (0x3A :: t)
  have hquote : isSpace 0x22 = false := by decide
  have hcolon : isSpace 0x3A = false := by decide
  simp [parseKey, quote, skipSpace_cons hquote, skipSpace_cons hcolon, hscan, hts]

theorem length_le_encodeElems (vs : List Value) : vs.length ≤ (encodeElems vs).length := by
  induction vs with
  | nil => exact Nat.zero_le _
  | cons v vs ih =>
    cases vs with
    | nil => simp [encodeElems]
    | cons w vs =>
      simp only [encodeElems, List.length_append, List.length_cons] at ih ⊢
      omega

theorem length_le_encodeMembers (ms : List (Bytes × Value)) :
    ms.length ≤ (encodeMembers ms).length := by
  induction ms with
  | nil => exact Nat.zero_le _
  | cons m ms ih =>
    cases ms with
    | nil =>
      simp only [encodeMembers, List.length_append, List.length_cons, List.length_nil]
      omega
    | cons m' ms =>
      simp only [encodeMembers, List.length_append, List.length_cons] at ih ⊢
      omega

/-- After a value comes the end of the list or the next element. -/
theorem parseElems_cons {pv : Bytes → Option (Value × Bytes)} {v w : Value}
    (hpv : ∀ t, Stops t → pv (encode v ++ t) = some (w, t)) {vs ws : List Value} {t : Bytes}
    {fuel : Nat} (hvs : vs ≠ [] → parseElems pv fuel (encodeElems vs ++ t) = some (ws, t))
    (hnil : vs = [] → ws = []) :
    parseElems pv (fuel + 1) (encodeElems (v :: vs) ++ t) = some (w :: ws, t) := by
  cases vs with
  | nil =>
    have hclose : isSpace 0x5D = false := by decide
    have hpv' := hpv (0x5D :: t) (stops_cons (.inr (.inl rfl)) t)
    simp [encodeElems, parseElems, skipSpace_encode, hpv', skipSpace_cons hclose, hnil rfl]
  | cons v' vs =>
    have hcomma : isSpace 0x2C = false := by decide
    have hpv' := hpv (0x2C :: (encodeElems (v' :: vs) ++ t)) (stops_cons (.inl rfl) _)
    rw [show encodeElems (v :: v' :: vs) = encode v ++ 0x2C :: encodeElems (v' :: vs) by
      rw [encodeElems]; simp]
    simp [parseElems, skipSpace_encode, hpv', skipSpace_cons hcomma, hvs]

theorem parseMembers_cons {pv : Bytes → Option (Value × Bytes)} {k : Bytes} {v w : Value}
    (hpv : ∀ t, Stops t → pv (encode v ++ t) = some (w, t)) {ms ws : List (Bytes × Value)}
    {t : Bytes} {fuel : Nat}
    (hms : ms ≠ [] → parseMembers pv fuel (encodeMembers ms ++ t) = some (ws, t))
    (hnil : ms = [] → ws = []) :
    parseMembers pv (fuel + 1) (encodeMembers ((k, v) :: ms) ++ t) =
      some ((Utf8.coerce k, w) :: ws, t) := by
  cases ms with
  | nil =>
    have hclose : isSpace 0x7D = false := by decide
    have hpv' := hpv (0x7D :: t) (stops_cons (.inr (.inr (.inl rfl))) t)
    simp [encodeMembers, parseMembers, parseKey_quote, skipSpace_encode, hpv',
      skipSpace_cons hclose, hnil rfl]
  | cons m ms =>
    have hcomma : isSpace 0x2C = false := by decide
    have hpv' := hpv (0x2C :: (encodeMembers (m :: ms) ++ t)) (stops_cons (.inl rfl) _)
    rw [show encodeMembers ((k, v) :: m :: ms) =
        quote k ++ 0x3A :: (encode v ++ 0x2C :: encodeMembers (m :: ms)) by
      rw [encodeMembers]; simp]
    simp [parseMembers, parseKey_quote, skipSpace_encode, hpv', skipSpace_cons hcomma, hms]

theorem parseValue_arr (depth : Nat) {s : Bytes} (h : ∀ r, skipSpace s ≠ 0x5D :: r) :
    parseValue (depth + 1) (0x5B :: s) =
      (parseElems (parseValue depth) s.length s).map fun p => (.arr p.1, p.2) := by
  simp only [parseValue, if_true]

theorem parseValue_arr_nil (depth : Nat) {s r : Bytes} (h : skipSpace s = 0x5D :: r) :
    parseValue (depth + 1) (0x5B :: s) = some (.arr [], r) := by
  simp only [parseValue, if_true, h]

theorem parseValue_obj_nil (depth : Nat) {s r : Bytes} (h : skipSpace s = 0x7D :: r) :
    parseValue (depth + 1) (0x7B :: s) = some (.obj [], r) := by
  have hne : (0x7B : UInt8) ≠ 0x5B := by decide
  simp only [parseValue, hne, if_false, if_true, h]

theorem parseValue_obj (depth : Nat) {s : Bytes} (h : ∀ r, skipSpace s ≠ 0x7D :: r) :
    parseValue (depth + 1) (0x7B :: s) =
      (parseMembers (parseValue depth) s.length s).map fun p => (.obj p.1, p.2) := by
  have hne : (0x7B : UInt8) ≠ 0x5B := by decide
  simp only [parseValue, hne, if_false, if_true]

theorem skipSpace_encodeElems (v : Value) (vs : List Value) (t r : Bytes) :
    skipSpace (encodeElems (v :: vs) ++ t) ≠ 0x5D :: r := by
  obtain ⟨b, s, heq, hspace, hne, -⟩ := encode_head v
  have hhead : ∃ s', encodeElems (v :: vs) ++ t = b :: s' := by
    cases vs with
    | nil => exact ⟨_, by rw [encodeElems, heq]; rfl⟩
    | cons w vs => exact ⟨_, by rw [encodeElems, heq]; rfl; simp⟩
  obtain ⟨s', hs'⟩ := hhead
  rw [hs', skipSpace_cons hspace]
  intro h
  exact hne (List.cons.inj h).1

theorem skipSpace_encodeMembers (m : Bytes × Value) (ms : List (Bytes × Value)) (t r : Bytes) :
    skipSpace (encodeMembers (m :: ms) ++ t) ≠ 0x7D :: r := by
  have hhead : ∃ s', encodeMembers (m :: ms) ++ t = 0x22 :: s' := by
    cases ms with
    | nil => exact ⟨_, by rw [encodeMembers, quote]; rfl⟩
    | cons w ms => exact ⟨_, by rw [encodeMembers, quote]; rfl; simp⟩
  obtain ⟨s', hs'⟩ := hhead
  rw [hs', skipSpace_cons (by decide)]
  intro h
  exact absurd (List.cons.inj h).1 (by decide)

mutual

/-- A document that is written is read back, up to the coercion of its strings. -/
theorem parseValue_encode (v : Value) {d : Nat} (hd : v.depth ≤ d) {t : Bytes} (ht : Stops t) :
    parseValue d (encode v ++ t) = some (v.coerce, t) := by
  match v with
  | .null =>
    rw [encode, List.cons_append, parseValue_scalar d (by decide) (by decide)]
    exact parseLit_append [117, 108, 108] .null t
  | .bool true =>
    rw [encode, List.cons_append, parseValue_scalar d (by decide) (by decide)]
    exact parseLit_append [114, 117, 101] (.bool true) t
  | .bool false =>
    rw [encode, List.cons_append, parseValue_scalar d (by decide) (by decide)]
    exact parseLit_append [97, 108, 115, 101] (.bool false) t
  | .num n =>
    have hscalar := parseScalar_number n ht
    obtain ⟨b, s, hlit, hb⟩ := n.lit_head
    have harr : b ≠ 0x5B := by rintro rfl; revert hb; decide
    have hobj : b ≠ 0x7B := by rintro rfl; revert hb; decide
    rw [encode, hlit, List.cons_append, parseValue_scalar d harr hobj, ← List.cons_append, ← hlit]
    exact hscalar
  | .str s =>
    have hscalar := parseScalar_quote s t
    rw [encode, Value.coerce]
    rw [quote, List.cons_append] at hscalar ⊢
    rw [parseValue_scalar d (by decide) (by decide)]
    exact hscalar
  | .arr [] =>
    obtain ⟨d', rfl⟩ := Nat.exists_eq_succ_of_ne_zero (Nat.ne_zero_of_lt hd)
    exact parseValue_arr_nil d' rfl
  | .arr (v :: vs) =>
    obtain ⟨d', rfl⟩ := Nat.exists_eq_succ_of_ne_zero (Nat.ne_zero_of_lt hd)
    have hfuel : (v :: vs).length ≤ (encodeElems (v :: vs) ++ t).length := by
      rw [List.length_append]
      exact (length_le_encodeElems (v :: vs)).trans (Nat.le_add_right _ _)
    rw [encode, List.cons_append, parseValue_arr d' (skipSpace_encodeElems v vs t),
      parseElems_encode (v :: vs) (Nat.le_of_succ_le_succ hd) (List.cons_ne_nil _ _) hfuel t]
    rfl
  | .obj [] =>
    obtain ⟨d', rfl⟩ := Nat.exists_eq_succ_of_ne_zero (Nat.ne_zero_of_lt hd)
    exact parseValue_obj_nil d' rfl
  | .obj ((k, v) :: ms) =>
    obtain ⟨d', rfl⟩ := Nat.exists_eq_succ_of_ne_zero (Nat.ne_zero_of_lt hd)
    have hfuel : ((k, v) :: ms).length ≤ (encodeMembers ((k, v) :: ms) ++ t).length := by
      rw [List.length_append]
      exact (length_le_encodeMembers ((k, v) :: ms)).trans (Nat.le_add_right _ _)
    rw [encode, List.cons_append, parseValue_obj d' (skipSpace_encodeMembers (k, v) ms t),
      parseMembers_encode ((k, v) :: ms) (Nat.le_of_succ_le_succ hd) (List.cons_ne_nil _ _) hfuel t]
    rfl

theorem parseElems_encode (vs : List Value) {d : Nat} (hd : depthElems vs ≤ d) (hvs : vs ≠ [])
    {fuel : Nat} (hfuel : vs.length ≤ fuel) (t : Bytes) :
    parseElems (parseValue d) fuel (encodeElems vs ++ t) = some (coerceElems vs, t) := by
  match vs, fuel with
  | v :: vs, fuel + 1 =>
    simp only [depthElems, max_le_iff] at hd
    refine parseElems_cons (fun t ht => parseValue_encode v hd.1 ht) ?_ ?_
    · intro hne
      exact parseElems_encode vs hd.2 hne (Nat.le_of_succ_le_succ hfuel) t
    · rintro rfl
      rfl

theorem parseMembers_encode (ms : List (Bytes × Value)) {d : Nat} (hd : depthMembers ms ≤ d)
    (hms : ms ≠ []) {fuel : Nat} (hfuel : ms.length ≤ fuel) (t : Bytes) :
    parseMembers (parseValue d) fuel (encodeMembers ms ++ t) = some (coerceMembers ms, t) := by
  match ms, fuel with
  | (k, v) :: ms, fuel + 1 =>
    simp only [depthMembers, max_le_iff] at hd
    refine parseMembers_cons (fun t ht => parseValue_encode v hd.1 ht) ?_ ?_
    · intro hne
      exact parseMembers_encode ms hd.2 hne (Nat.le_of_succ_le_succ hfuel) t
    · rintro rfl
      rfl

end

end Json
