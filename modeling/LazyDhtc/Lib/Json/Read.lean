-- SUMMARY: Reading a JSON document from a stream, possibly a cut off one, and the size of an encoded document.
import LazyDhtc.Lib.Json.Value

/-!
# JSON streams

A decoder reads one document from a stream. The stream may end or fail before the
document is complete; a number at the end of a failing stream may go on, an object or
an array is complete with its last bracket.
-/

namespace Json

open Utf8

/-! ## Decoders -/

def Value.isNum : Value → Bool
  | .num _ => true
  | _ => false

def Value.isContainer : Value → Bool
  | .arr _ | .obj _ => true
  | _ => false

/-- The nesting depth that Go's decoder gives up at. -/
def maxNestingDepth : Nat := 10000

/-- `json.NewDecoder(r).Decode`: `s` is all that can be read from `r`, which then ends, or
    fails if `eof` does not hold. -/
def readValue (s : Bytes) (eof : Bool) : Option Value :=
  match parseValue maxNestingDepth (skipSpace s) with
  | some (v, r) => if eof = true ∨ r ≠ [] ∨ v.isContainer = true then some v else none
  | none => none

/-- The decoder on top of an `http.MaxBytesReader`. -/
def readLimited (limit : Nat) (body : Bytes) : Option Value :=
  readValue (body.take limit) (body.length ≤ limit)

/-- `json.Unmarshal`: nothing but blanks may follow the document. -/
def readAll (s : Bytes) : Option Value :=
  match parseValue maxNestingDepth (skipSpace s) with
  | some (v, r) => if skipSpace r = [] then some v else none
  | none => none

/-! ## More input -/

theorem skipSpace_append {s : Bytes} (h : skipSpace s ≠ []) (t : Bytes) :
    skipSpace (s ++ t) = skipSpace s ++ t := by
  unfold skipSpace at h ⊢
  rw [List.dropWhile_append]
  simp [h]

theorem parseLit_stable {lit s r : Bytes} {v w : Value} (t : Bytes)
    (h : parseLit lit v s = some (w, r)) : parseLit lit v (s ++ t) = some (w, r ++ t) := by
  unfold parseLit at h ⊢
  split at h
  · next hlit =>
    cases h
    rw [if_pos (hlit.trans (List.prefix_append _ _)), List.drop_append_of_le_length hlit.length_le]
  · cases h

theorem parseScalar_stable {s r : Bytes} {v : Value} (t : Bytes)
    (h : parseScalar s = some (v, r)) (hr : r ≠ [] ∨ v.isNum = false) :
    parseScalar (s ++ t) = some (v, r ++ t) := by
  cases s with
  | nil => cases h
  | cons b s =>
    simp only [parseScalar, List.cons_append] at h ⊢
    split_ifs at h ⊢ with hstr hnull htrue hfalse
    · obtain ⟨⟨ts, r'⟩, hscan, heq⟩ := Option.map_eq_some_iff.1 h
      cases heq
      rw [scanString_append t hscan]
      rfl
    · exact parseLit_stable t h
    · exact parseLit_stable t h
    · exact parseLit_stable t h
    · obtain ⟨⟨n, r'⟩, hparse, heq⟩ := Option.map_eq_some_iff.1 h
      cases heq
      have hne : r' ≠ [] := hr.resolve_right (by simp [Value.isNum])
      have hscan := scanNumber_stable t (Number.parse_eq_some.1 hparse) hne
      rw [List.cons_append] at hscan
      rw [Number.parse_eq_some.2 hscan]
      rfl

section Lists

/-- A value parser that finds nothing in the empty text and is stable under more text
    where it stops before the end. -/
structure Stable (pv : Bytes → Option (Value × Bytes)) : Prop where
  nil : pv [] = none
  append : ∀ {s r v} t, pv s = some (v, r) → r ≠ [] → pv (s ++ t) = some (v, r ++ t)

variable {pv : Bytes → Option (Value × Bytes)}

theorem Stable.skipSpace (hpv : Stable pv) {s r : Bytes} {v : Value} (t : Bytes)
    (h : pv (skipSpace s) = some (v, r)) (hr : r ≠ []) :
    pv (Json.skipSpace (s ++ t)) = some (v, r ++ t) := by
  have hne : Json.skipSpace s ≠ [] := by
    intro hnil
    rw [hnil, hpv.nil] at h
    cases h
  rw [skipSpace_append hne]
  exact hpv.append t h hr

/-- A text that still has a byte after its blanks is not empty. -/
theorem skipSpace_ne_nil {s r : Bytes} {b : UInt8} (h : skipSpace s = b :: r) :
    s ≠ [] ∧ ∀ t, skipSpace (s ++ t) = b :: (r ++ t) := by
  refine ⟨?_, ?_⟩
  · rintro rfl
    cases h
  · intro t
    rw [skipSpace_append (by simp [h]), h, List.cons_append]

theorem parseElems_stable (hpv : Stable pv) {s r : Bytes} {vs : List Value} {n m : Nat} (t : Bytes)
    (h : parseElems pv n s = some (vs, r)) (hnm : n ≤ m) :
    parseElems pv m (s ++ t) = some (vs, r ++ t) := by
  induction n generalizing s vs m with
  | zero => cases h
  | succ n ih =>
    obtain ⟨m, rfl⟩ := Nat.exists_eq_succ_of_ne_zero (Nat.ne_zero_of_lt hnm)
    simp only [parseElems] at h ⊢
    split at h
    · cases h
    · next v s' hv =>
      split at h
      · cases h
      · next b s'' hrest =>
        obtain ⟨hne, happend⟩ := skipSpace_ne_nil hrest
        rw [hpv.skipSpace t hv hne]
        simp only [happend]
        split_ifs at h ⊢ with hcomma hclose
        · obtain ⟨⟨vs', r'⟩, htail, heq⟩ := Option.map_eq_some_iff.1 h
          cases heq
          rw [ih htail (Nat.le_of_succ_le_succ hnm)]
          rfl
        · cases h
          rfl

theorem parseKey_stable {s r k : Bytes} (t : Bytes) (h : parseKey s = some (k, r)) :
    parseKey (s ++ t) = some (k, r ++ t) := by
  unfold parseKey at h ⊢
  split at h
  · cases h
  · next b s' hrest =>
    simp only [(skipSpace_ne_nil hrest).2]
    split_ifs at h ⊢ with hquote
    split at h
    · cases h
    · next ts s'' hscan =>
      rw [scanString_append t hscan]
      split at h
      · cases h
      · next c s''' hrest' =>
        simp only [(skipSpace_ne_nil hrest').2]
        split_ifs at h ⊢ with hcolon
        cases h
        rfl

theorem parseMembers_stable (hpv : Stable pv) {s r : Bytes} {ms : List (Bytes × Value)} {n m : Nat}
    (t : Bytes) (h : parseMembers pv n s = some (ms, r)) (hnm : n ≤ m) :
    parseMembers pv m (s ++ t) = some (ms, r ++ t) := by
  induction n generalizing s ms m with
  | zero => cases h
  | succ n ih =>
    obtain ⟨m, rfl⟩ := Nat.exists_eq_succ_of_ne_zero (Nat.ne_zero_of_lt hnm)
    simp only [parseMembers] at h ⊢
    split at h
    · cases h
    · next k s₁ hkey =>
      rw [parseKey_stable t hkey]
      simp only
      split at h
      · cases h
      · next v s' hv =>
        split at h
        · cases h
        · next b s'' hrest =>
          obtain ⟨hne, happend⟩ := skipSpace_ne_nil hrest
          rw [hpv.skipSpace t hv hne]
          simp only [happend]
          split_ifs at h ⊢ with hcomma hclose
          · obtain ⟨⟨ms', r'⟩, htail, heq⟩ := Option.map_eq_some_iff.1 h
            cases heq
            rw [ih htail (Nat.le_of_succ_le_succ hnm)]
            rfl
          · cases h
            rfl

theorem parseValue_nil (d : Nat) : parseValue d [] = none := by
  cases d <;> rfl

theorem parseElems_blank (hpv : Stable pv) {s : Bytes} (h : Json.skipSpace s = []) (n : Nat) :
    parseElems pv n s = none := by
  cases n with
  | zero => rfl
  | succ n => simp [parseElems, h, hpv.nil]

theorem parseMembers_blank {s : Bytes} (h : Json.skipSpace s = []) (n : Nat) :
    parseMembers pv n s = none := by
  cases n with
  | zero => rfl
  | succ n => simp [parseMembers, parseKey, h]

theorem parseValue_arr_stable {d : Nat} (hpv : Stable (parseValue d)) {s r : Bytes} {v : Value}
    (t : Bytes) (h : parseValue (d + 1) (0x5B :: s) = some (v, r)) :
    parseValue (d + 1) (0x5B :: (s ++ t)) = some (v, r ++ t) := by
  by_cases hclose : ∃ r', Json.skipSpace s = 0x5D :: r'
  · obtain ⟨r', hs⟩ := hclose
    rw [parseValue_arr_nil d hs] at h
    cases h
    exact parseValue_arr_nil d ((skipSpace_ne_nil hs).2 t)
  · have hs : ∀ r', Json.skipSpace s ≠ 0x5D :: r' := fun r' heq => hclose ⟨r', heq⟩
    rw [parseValue_arr d hs] at h
    obtain ⟨⟨vs, r'⟩, helems, heq⟩ := Option.map_eq_some_iff.1 h
    cases heq
    have hne : Json.skipSpace s ≠ [] := by
      intro hnil
      rw [parseElems_blank hpv hnil] at helems
      cases helems
    have hst : ∀ r', Json.skipSpace (s ++ t) ≠ 0x5D :: r' := by
      intro r' heq
      obtain ⟨b, s', hs'⟩ := List.exists_cons_of_ne_nil hne
      rw [(skipSpace_ne_nil hs').2, List.cons.injEq] at heq
      exact hs s' (by rw [hs', heq.1])
    rw [parseValue_arr d hst, parseElems_stable hpv t helems (by simp)]
    rfl

theorem parseValue_obj_stable {d : Nat} (hpv : Stable (parseValue d)) {s r : Bytes} {v : Value}
    (t : Bytes) (h : parseValue (d + 1) (0x7B :: s) = some (v, r)) :
    parseValue (d + 1) (0x7B :: (s ++ t)) = some (v, r ++ t) := by
  by_cases hclose : ∃ r', Json.skipSpace s = 0x7D :: r'
  · obtain ⟨r', hs⟩ := hclose
    rw [parseValue_obj_nil d hs] at h
    cases h
    exact parseValue_obj_nil d ((skipSpace_ne_nil hs).2 t)
  · have hs : ∀ r', Json.skipSpace s ≠ 0x7D :: r' := fun r' heq => hclose ⟨r', heq⟩
    rw [parseValue_obj d hs] at h
    obtain ⟨⟨ms, r'⟩, hmembers, heq⟩ := Option.map_eq_some_iff.1 h
    cases heq
    have hne : Json.skipSpace s ≠ [] := by
      intro hnil
      rw [parseMembers_blank hnil] at hmembers
      cases hmembers
    have hst : ∀ r', Json.skipSpace (s ++ t) ≠ 0x7D :: r' := by
      intro r' heq
      obtain ⟨b, s', hs'⟩ := List.exists_cons_of_ne_nil hne
      rw [(skipSpace_ne_nil hs').2, List.cons.injEq] at heq
      exact hs s' (by rw [hs', heq.1])
    rw [parseValue_obj d hst, parseMembers_stable hpv t hmembers (by simp)]
    rfl

end Lists

/-- A parsed value is stable under more text, unless it is a number that the text ended with. -/
theorem parseValue_stable {d : Nat} {s r : Bytes} {v : Value} (t : Bytes)
    (h : parseValue d s = some (v, r)) (hr : r ≠ [] ∨ v.isNum = false) :
    parseValue d (s ++ t) = some (v, r ++ t) := by
  induction d using Nat.strong_induction_on generalizing s r v t with
  | _ d ih' =>
  have ih : ∀ d' < d, Stable (parseValue d') := fun d' hlt =>
    ⟨parseValue_nil d', fun t h hr => ih' d' hlt t h (.inl hr)⟩
  have hscalar : ∀ {d b s}, b ≠ 0x5B → b ≠ 0x7B → parseValue d (b :: s) = some (v, r) →
      parseValue d (b :: s ++ t) = some (v, r ++ t) := by
    intro d b s harr hobj h
    rw [parseValue_scalar _ harr hobj] at h
    rw [List.cons_append, parseValue_scalar _ harr hobj]
    exact parseScalar_stable t h hr
  cases s with
  | nil => cases (parseValue_nil d).symm.trans h
  | cons b s =>
    by_cases harr : b = 0x5B
    · subst harr
      cases d with
      | zero => simp [parseValue] at h
      | succ d => exact parseValue_arr_stable (ih d (Nat.lt_succ_self d)) t h
    · by_cases hobj : b = 0x7B
      · subst hobj
        cases d with
        | zero => simp [parseValue] at h
        | succ d => exact parseValue_obj_stable (ih d (Nat.lt_succ_self d)) t h
      · exact hscalar harr hobj h

/-- A text that starts with a brace is read as an object. -/
theorem parseValue_brace {d : Nat} {s r : Bytes} {v : Value}
    (h : parseValue d (0x7B :: s) = some (v, r)) : ∃ ms, v = .obj ms := by
  cases d with
  | zero => simp [parseValue] at h
  | succ d =>
    by_cases hclose : ∃ r', skipSpace s = 0x7D :: r'
    · obtain ⟨r', hs⟩ := hclose
      rw [parseValue_obj_nil d hs] at h
      cases h
      exact ⟨[], rfl⟩
    · rw [parseValue_obj d fun r' heq => hclose ⟨r', heq⟩] at h
      obtain ⟨⟨ms, r'⟩, -, heq⟩ := Option.map_eq_some_iff.1 h
      cases heq
      exact ⟨ms, rfl⟩

/-- An object that is cut off before its end does not parse. -/
theorem parseValue_cut {ms : List (Bytes × Value)} {d : Nat} (hd : (Value.obj ms).depth ≤ d)
    {p t : Bytes} (h : encode (.obj ms) = p ++ t) (ht : t ≠ []) : parseValue d p = none := by
  have hwhole := parseValue_encode (.obj ms) hd (t := []) trivial
  cases hp : parseValue d p with
  | none => rfl
  | some res =>
    obtain ⟨v, r⟩ := res
    have hobj : v.isNum = false := by
      cases p with
      | nil => cases (parseValue_nil d).symm.trans hp
      | cons b p =>
        rw [encode, List.cons_append, List.cons.injEq] at h
        obtain ⟨rfl, -⟩ := h
        obtain ⟨ms', rfl⟩ := parseValue_brace hp
        rfl
    have hmore := parseValue_stable t hp (.inr hobj)
    rw [← h] at hmore
    rw [List.append_nil, hmore] at hwhole
    simp only [Option.some.injEq, Prod.mk.injEq, List.append_eq_nil_iff] at hwhole
    exact absurd hwhole.2.2 ht

/-! ## Reading what was encoded -/

theorem readValue_encode {v : Value} (hd : v.depth ≤ maxNestingDepth) {t : Bytes} (ht : Stops t) :
    readValue (encode v ++ t) true = some v.coerce := by
  simp [readValue, skipSpace_encode, parseValue_encode v hd ht]

theorem readAll_encode {v : Value} (hd : v.depth ≤ maxNestingDepth) :
    readAll (encode v) = some v.coerce := by
  have hskip := skipSpace_encode v []
  have hparse := parseValue_encode v hd (t := []) trivial
  rw [List.append_nil] at hskip hparse
  rw [readAll, hskip, hparse]
  rfl

/-- An object is read from a limited stream if it is no longer than the limit. -/
theorem readLimited_encode {ms : List (Bytes × Value)} (hd : (Value.obj ms).depth ≤ maxNestingDepth)
    (limit : Nat) : readLimited limit (encode (.obj ms)) =
      if (encode (.obj ms)).length ≤ limit then some (Value.obj ms).coerce else none := by
  split_ifs with hlen
  · have hread := readValue_encode hd (t := []) trivial
    rw [List.append_nil] at hread
    rw [readLimited, List.take_of_length_le hlen, decide_eq_true hlen, hread]
  · have hsplit : encode (.obj ms) =
        (encode (.obj ms)).take limit ++ (encode (.obj ms)).drop limit :=
      (List.take_append_drop _ _).symm
    have hrest : (encode (.obj ms)).drop limit ≠ [] := by
      rw [Ne, List.drop_eq_nil_iff]
      exact hlen
    have hcut := parseValue_cut hd hsplit hrest
    have hskip : skipSpace ((encode (.obj ms)).take limit) = (encode (.obj ms)).take limit := by
      cases limit with
      | zero => rfl
      | succ limit => rw [encode, List.take_succ_cons, skipSpace_cons (by decide)]
    rw [readLimited, readValue, hskip, hcut]

/-! ## Sizes -/

def byteSize (b : UInt8) : Nat :=
  if b = 0x22 ∨ b = 0x5C ∨ b = 8 ∨ b = 12 ∨ b = 10 ∨ b = 13 ∨ b = 9 then 2
  else if b < 0x20 ∨ b = 0x3C ∨ b = 0x3E ∨ b = 0x26 then 6
  else 1

def chunkSize : Chunk → Nat
  | .invalid _ => 6
  | .rune u =>
    if u = [0xE2, 0x80, 0xA8] ∨ u = [0xE2, 0x80, 0xA9] then 6
    else if u.length = 1 then (u.map byteSize).sum
    else u.length

/-- The size of a string literal, with its quotes. -/
def textSize (s : Bytes) : Nat := ((chunks s).map chunkSize).sum + 2

theorem textSize_ascii {s : Bytes} (hs : ∀ b ∈ s, b < 0x80) :
    textSize s = (s.map byteSize).sum + 2 := by
  have hchunk : chunkSize ∘ (fun b => Chunk.rune [b]) = byteSize := by
    funext b
    simp [chunkSize]
  rw [textSize, chunks_ascii hs, List.map_map, hchunk]

theorem length_le_chunkSize {u : Bytes} : u.length ≤ chunkSize (.rune u) := by
  have hbyte : ∀ b, 1 ≤ byteSize b := by
    intro b
    unfold byteSize
    split_ifs <;> decide
  simp only [chunkSize]
  split_ifs with hsep hone
  · rcases hsep with rfl | rfl <;> decide
  · obtain ⟨b, rfl⟩ := List.length_eq_one_iff.1 hone
    simpa using hbyte b
  · exact Nat.le_refl _

/-- No string gets shorter by being quoted. -/
theorem length_le_textSize (s : Bytes) : s.length ≤ textSize s := by
  have hsum : s.length ≤ ((chunks s).map chunkSize).sum := by
    induction s using chunks_induction with
    | nil => exact Nat.zero_le _
    | rune b s n htail ih =>
      have hn := tailLen_length htail
      have hchunk := length_le_chunkSize (u := b :: s.take n)
      rw [chunks_cons_rune htail, List.map_cons, List.sum_cons]
      simp only [List.length_drop, List.length_cons, List.length_take_of_le hn] at ih hchunk ⊢
      omega
    | invalid b s htail ih =>
      rw [chunks_cons_invalid htail, List.map_cons, List.sum_cons, chunkSize, List.length_cons]
      omega
  exact hsum.trans (Nat.le_add_right _ _)

theorem length_escapeByte (b : UInt8) : (escapeByte b).length = byteSize b := by
  unfold escapeByte byteSize
  split_ifs <;> simp_all

theorem length_escapeChunk (c : Chunk) : (escapeChunk c).length = chunkSize c := by
  cases c with
  | invalid b => rfl
  | rune u =>
    simp only [escapeChunk, chunkSize]
    split_ifs with hline hpara hlen <;> simp_all [List.length_flatMap, length_escapeByte]

theorem length_quote (s : Bytes) : (quote s).length = textSize s := by
  simp [quote, escape, textSize, List.length_flatMap, length_escapeChunk]

theorem length_encode_str (s : Bytes) : (encode (.str s)).length = textSize s := by
  rw [encode, length_quote]

/-- Each element is followed by a comma or by the closing bracket. -/
theorem length_encode_arr (vs : List Value) : (encode (.arr vs)).length =
    if vs = [] then 2 else (vs.map fun v => (encode v).length + 1).sum + 1 := by
  have helems : vs ≠ [] →
      (encodeElems vs).length = (vs.map fun v => (encode v).length + 1).sum := by
    induction vs with
    | nil => exact fun h => (h rfl).elim
    | cons v vs ih =>
      intro _
      cases vs with
      | nil => simp [encodeElems]
      | cons w vs =>
        have hrest := ih (List.cons_ne_nil _ _)
        simp only [encodeElems, List.length_append, List.length_cons, List.map_cons,
          List.sum_cons] at hrest ⊢
        omega
  rw [encode, List.length_cons]
  split_ifs with hvs
  · rw [hvs]
    rfl
  · rw [helems hvs]

theorem length_encode_obj {ms : List (Bytes × Value)} (hms : ms ≠ []) : (encode (.obj ms)).length =
    (ms.map fun m => textSize m.1 + (encode m.2).length + 2).sum + 1 := by
  rw [encode, List.length_cons]
  congr 1
  induction ms with
  | nil => exact (hms rfl).elim
  | cons m ms ih =>
    obtain ⟨k, v⟩ := m
    cases ms with
    | nil =>
      simp only [encodeMembers, List.length_append, List.length_cons, List.length_nil, length_quote,
        List.map_cons, List.map_nil, List.sum_cons, List.sum_nil]
      omega
    | cons m' ms =>
      have hrest := ih (List.cons_ne_nil _ _)
      rw [encodeMembers, List.length_append, List.length_cons, List.length_append, List.length_cons,
        length_quote, hrest]
      · simp only [List.map_cons, List.sum_cons]
        omega
      · simp

end Json
