-- SUMMARY: Indented JSON documents: Go's encoder with line breaks, and that they read back like those without.
import LazyDhtc.Lib.Json.Read

/-!
# Indented documents

`indent` writes a document with every element and member on a line of its own, two blanks
further in than what contains it. A decoder skips the blanks, so it reads the same
document.
-/

namespace Json

open Utf8

/-- The end of a line and the indentation of the next. -/
def newline (n : Nat) : Bytes := 0x0A :: List.replicate (2 * n) 0x20

mutual

/-- `json.MarshalIndent(v, "", "  ")`, inside of `n` arrays and objects. -/
def indent (n : Nat) : Value → Bytes
  | .arr vs => 0x5B :: indentElems n vs
  | .obj ms => 0x7B :: indentMembers n ms
  | v => encode v

/-- The elements of an array and the closing bracket. -/
def indentElems (n : Nat) : List Value → Bytes
  | [] => [0x5D]
  | [v] => newline (n + 1) ++ (indent (n + 1) v ++ (newline n ++ [0x5D]))
  | v :: vs => newline (n + 1) ++ (indent (n + 1) v ++ 0x2C :: indentElems n vs)

/-- The members of an object and the closing brace. -/
def indentMembers (n : Nat) : List (Bytes × Value) → Bytes
  | [] => [0x7D]
  | [(k, v)] =>
    newline (n + 1) ++ (quote k ++ 0x3A :: 0x20 :: (indent (n + 1) v ++ (newline n ++ [0x7D])))
  | (k, v) :: ms =>
    newline (n + 1) ++ (quote k ++ 0x3A :: 0x20 :: (indent (n + 1) v ++ 0x2C :: indentMembers n ms))

end

/-! ## Blanks -/

theorem skipSpace_newline (n : Nat) (s : Bytes) : skipSpace (newline n ++ s) = skipSpace s := by
  have hblank : ∀ b ∈ newline n, isSpace b = true := by
    intro b hb
    rcases List.mem_cons.1 hb with rfl | hb
    · decide
    · rw [(List.mem_replicate.1 hb).2]
      decide
  unfold skipSpace
  exact List.dropWhile_append_of_pos hblank

theorem stops_newline (n : Nat) (s : Bytes) : Stops (newline n ++ s) :=
  stops_cons (.inr (.inr (.inr rfl))) _

/-- An indented document starts with a byte that is no blank and closes nothing. -/
theorem indent_head (n : Nat) (v : Value) :
    ∃ b s, indent n v = b :: s ∧ isSpace b = false ∧ b ≠ 0x5D ∧ b ≠ 0x7D := by
  cases v with
  | arr vs => exact ⟨_, _, by rw [indent], by decide⟩
  | obj ms => exact ⟨_, _, by rw [indent], by decide⟩
  | null => exact encode_head .null
  | bool b => exact encode_head (.bool b)
  | num k => exact encode_head (.num k)
  | str s => exact encode_head (.str s)

theorem skipSpace_indent (n : Nat) (v : Value) (t : Bytes) :
    skipSpace (indent n v ++ t) = indent n v ++ t := by
  obtain ⟨b, s, heq, hb, -⟩ := indent_head n v
  rw [heq, List.cons_append, skipSpace_cons hb]

theorem parseKey_newline (n : Nat) (s : Bytes) : parseKey (newline n ++ s) = parseKey s := by
  unfold parseKey
  rw [skipSpace_newline]

/-- The first element is on a line of its own, so the array does not close at once. -/
theorem skipSpace_indentElems (n : Nat) (v : Value) (vs : List Value) (t r : Bytes) :
    skipSpace (indentElems n (v :: vs) ++ t) ≠ 0x5D :: r := by
  obtain ⟨b, s, heq, hspace, hne, -⟩ := indent_head (n + 1) v
  have hhead : ∃ s', indentElems n (v :: vs) ++ t = newline (n + 1) ++ b :: s' := by
    cases vs with
    | nil => exact ⟨_, by rw [indentElems, heq, List.append_assoc]; rfl⟩
    | cons w vs => exact ⟨_, by rw [indentElems, heq, List.append_assoc]; rfl; simp⟩
  obtain ⟨s', hs'⟩ := hhead
  rw [hs', skipSpace_newline, skipSpace_cons hspace]
  intro h
  exact hne (List.cons.inj h).1

theorem skipSpace_indentMembers (n : Nat) (m : Bytes × Value) (ms : List (Bytes × Value))
    (t r : Bytes) : skipSpace (indentMembers n (m :: ms) ++ t) ≠ 0x7D :: r := by
  have hhead : ∃ s', indentMembers n (m :: ms) ++ t = newline (n + 1) ++ 0x22 :: s' := by
    cases ms with
    | nil => exact ⟨_, by rw [indentMembers, quote, List.append_assoc]; rfl⟩
    | cons w ms => exact ⟨_, by rw [indentMembers, quote, List.append_assoc]; rfl; simp⟩
  obtain ⟨s', hs'⟩ := hhead
  rw [hs', skipSpace_newline, skipSpace_cons (by decide)]
  intro h
  exact absurd (List.cons.inj h).1 (by decide)

/-! ## Round trip -/

theorem length_le_indentElems (n : Nat) (vs : List Value) :
    vs.length ≤ (indentElems n vs).length := by
  induction vs with
  | nil => exact Nat.zero_le _
  | cons v vs ih =>
    cases vs with
    | nil =>
      simp only [indentElems, List.length_append, List.length_cons, List.length_nil]
      omega
    | cons w vs =>
      simp only [indentElems, List.length_append, List.length_cons] at ih ⊢
      omega

theorem length_le_indentMembers (n : Nat) (ms : List (Bytes × Value)) :
    ms.length ≤ (indentMembers n ms).length := by
  induction ms with
  | nil => exact Nat.zero_le _
  | cons m ms ih =>
    cases ms with
    | nil =>
      simp only [indentMembers, List.length_append, List.length_cons, List.length_nil]
      omega
    | cons m' ms =>
      simp only [indentMembers, List.length_append, List.length_cons] at ih ⊢
      omega

/-- After a value comes the end of the list or the next element. -/
theorem parseElems_indent_cons {pv : Bytes → Option (Value × Bytes)} {n : Nat} {v w : Value}
    (hpv : ∀ t, Stops t → pv (indent (n + 1) v ++ t) = some (w, t)) {vs ws : List Value}
    {t : Bytes} {fuel : Nat}
    (hvs : vs ≠ [] → parseElems pv fuel (indentElems n vs ++ t) = some (ws, t))
    (hnil : vs = [] → ws = []) :
    parseElems pv (fuel + 1) (indentElems n (v :: vs) ++ t) = some (w :: ws, t) := by
  cases vs with
  | nil =>
    have hclose : skipSpace (newline n ++ 0x5D :: t) = 0x5D :: t := by
      rw [skipSpace_newline, skipSpace_cons (by decide)]
    have hpv' := hpv (newline n ++ 0x5D :: t) (stops_newline n _)
    simp [indentElems, parseElems, skipSpace_newline, skipSpace_indent, hpv', hclose, hnil rfl]
  | cons v' vs =>
    have hcomma : isSpace 0x2C = false := by decide
    have hpv' := hpv (0x2C :: (indentElems n (v' :: vs) ++ t)) (stops_cons (.inl rfl) _)
    rw [show indentElems n (v :: v' :: vs) =
        newline (n + 1) ++ (indent (n + 1) v ++ 0x2C :: indentElems n (v' :: vs)) by
      rw [indentElems]; simp]
    simp [parseElems, skipSpace_newline, skipSpace_indent, hpv', skipSpace_cons hcomma, hvs]

theorem parseMembers_indent_cons {pv : Bytes → Option (Value × Bytes)} {n : Nat} {k : Bytes}
    {v w : Value} (hpv : ∀ t, Stops t → pv (indent (n + 1) v ++ t) = some (w, t))
    {ms ws : List (Bytes × Value)} {t : Bytes} {fuel : Nat}
    (hms : ms ≠ [] → parseMembers pv fuel (indentMembers n ms ++ t) = some (ws, t))
    (hnil : ms = [] → ws = []) :
    parseMembers pv (fuel + 1) (indentMembers n ((k, v) :: ms) ++ t) =
      some ((Utf8.coerce k, w) :: ws, t) := by
  -- the blank after the colon
  have hblank : ∀ s, skipSpace (0x20 :: s) = skipSpace s := fun s => rfl
  cases ms with
  | nil =>
    have hclose : skipSpace (newline n ++ 0x7D :: t) = 0x7D :: t := by
      rw [skipSpace_newline, skipSpace_cons (by decide)]
    have hpv' := hpv (newline n ++ 0x7D :: t) (stops_newline n _)
    simp [indentMembers, parseMembers, parseKey_newline, parseKey_quote, hblank, skipSpace_indent,
      hpv', hclose, hnil rfl]
  | cons m ms =>
    have hcomma : isSpace 0x2C = false := by decide
    have hpv' := hpv (0x2C :: (indentMembers n (m :: ms) ++ t)) (stops_cons (.inl rfl) _)
    rw [show indentMembers n ((k, v) :: m :: ms) = newline (n + 1) ++
        (quote k ++ 0x3A :: 0x20 :: (indent (n + 1) v ++ 0x2C :: indentMembers n (m :: ms))) by
      rw [indentMembers]; simp]
    simp [parseMembers, parseKey_newline, parseKey_quote, hblank, skipSpace_indent, hpv',
      skipSpace_cons hcomma, hms]

mutual

/-- An indented document is read back, up to the coercion of its strings. -/
theorem parseValue_indent (n : Nat) (v : Value) {d : Nat} (hd : v.depth ≤ d) {t : Bytes}
    (ht : Stops t) : parseValue d (indent n v ++ t) = some (v.coerce, t) := by
  match v with
  | .null => exact parseValue_encode .null hd ht
  | .bool b => exact parseValue_encode (.bool b) hd ht
  | .num k => exact parseValue_encode (.num k) hd ht
  | .str s => exact parseValue_encode (.str s) hd ht
  | .arr [] =>
    obtain ⟨d', rfl⟩ := Nat.exists_eq_succ_of_ne_zero (Nat.ne_zero_of_lt hd)
    exact parseValue_arr_nil d' rfl
  | .arr (v :: vs) =>
    obtain ⟨d', rfl⟩ := Nat.exists_eq_succ_of_ne_zero (Nat.ne_zero_of_lt hd)
    have hfuel : (v :: vs).length ≤ (indentElems n (v :: vs) ++ t).length := by
      rw [List.length_append]
      exact (length_le_indentElems n (v :: vs)).trans (Nat.le_add_right _ _)
    rw [indent, List.cons_append, parseValue_arr d' (skipSpace_indentElems n v vs t),
      parseElems_indent n (v :: vs) (Nat.le_of_succ_le_succ hd) (List.cons_ne_nil _ _) hfuel t]
    rfl
  | .obj [] =>
    obtain ⟨d', rfl⟩ := Nat.exists_eq_succ_of_ne_zero (Nat.ne_zero_of_lt hd)
    exact parseValue_obj_nil d' rfl
  | .obj ((k, v) :: ms) =>
    obtain ⟨d', rfl⟩ := Nat.exists_eq_succ_of_ne_zero (Nat.ne_zero_of_lt hd)
    have hfuel : ((k, v) :: ms).length ≤ (indentMembers n ((k, v) :: ms) ++ t).length := by
      rw [List.length_append]
      exact (length_le_indentMembers n ((k, v) :: ms)).trans (Nat.le_add_right _ _)
    rw [indent, List.cons_append, parseValue_obj d' (skipSpace_indentMembers n (k, v) ms t),
      parseMembers_indent n ((k, v) :: ms) (Nat.le_of_succ_le_succ hd) (List.cons_ne_nil _ _)
        hfuel t]
    rfl

theorem parseElems_indent (n : Nat) (vs : List Value) {d : Nat} (hd : depthElems vs ≤ d)
    (hvs : vs ≠ []) {fuel : Nat} (hfuel : vs.length ≤ fuel) (t : Bytes) :
    parseElems (parseValue d) fuel (indentElems n vs ++ t) = some (coerceElems vs, t) := by
  match vs, fuel with
  | v :: vs, fuel + 1 =>
    simp only [depthElems, max_le_iff] at hd
    refine parseElems_indent_cons (fun t ht => parseValue_indent (n + 1) v hd.1 ht) ?_ ?_
    · intro hne
      exact parseElems_indent n vs hd.2 hne (Nat.le_of_succ_le_succ hfuel) t
    · rintro rfl
      rfl

theorem parseMembers_indent (n : Nat) (ms : List (Bytes × Value)) {d : Nat}
    (hd : depthMembers ms ≤ d) (hms : ms ≠ []) {fuel : Nat} (hfuel : ms.length ≤ fuel)
    (t : Bytes) :
    parseMembers (parseValue d) fuel (indentMembers n ms ++ t) = some (coerceMembers ms, t) := by
  match ms, fuel with
  | (k, v) :: ms, fuel + 1 =>
    simp only [depthMembers, max_le_iff] at hd
    refine parseMembers_indent_cons (fun t ht => parseValue_indent (n + 1) v hd.1 ht) ?_ ?_
    · intro hne
      exact parseMembers_indent n ms hd.2 hne (Nat.le_of_succ_le_succ hfuel) t
    · rintro rfl
      rfl

end

theorem readAll_indent {v : Value} (hd : v.depth ≤ maxNestingDepth) (n : Nat) :
    readAll (indent n v) = some v.coerce := by
  have hskip := skipSpace_indent n v []
  have hparse := parseValue_indent n v hd (t := []) trivial
  rw [List.append_nil] at hskip hparse
  rw [readAll, hskip, hparse]
  rfl

end Json
