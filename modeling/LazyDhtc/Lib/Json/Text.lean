-- SUMMARY: JSON string literals: how they are escaped, scanned and unquoted, and that a quoted string reads back as its UTF-8 coercion.
import LazyDhtc.Lib.Utf8

/-!
# JSON strings

The encoder follows Go's `encoding/json` with HTML escaping. The decoder is in two steps
there as well: a literal is first scanned for its end, then unquoted. A scanned literal
is a list of `Tok`, the bytes and the UTF-16 code units that it is made of.
-/

namespace Json

open Utf8

/-! ## Escaping -/

def hexDigit (n : Nat) : UInt8 := if n < 10 then .ofNat (48 + n) else .ofNat (87 + n)

/-- How a byte below 0x80 is written: as itself, after a backslash, or as `\u00XX`. -/
def escapeByte (b : UInt8) : Bytes :=
  if b = 0x22 ∨ b = 0x5C then [0x5C, b]
  else if b = 8 then [0x5C, 98]
  else if b = 12 then [0x5C, 102]
  else if b = 10 then [0x5C, 110]
  else if b = 13 then [0x5C, 114]
  else if b = 9 then [0x5C, 116]
  else if b < 0x20 ∨ b = 0x3C ∨ b = 0x3E ∨ b = 0x26 then
    [0x5C, 117, 48, 48, hexDigit (b.toNat / 16), hexDigit (b.toNat % 16)]
  else [b]

/-- Line and paragraph separators are escaped for the sake of JavaScript, stray bytes are
    written as U+FFFD. -/
def escapeChunk : Chunk → Bytes
  | .invalid _ => [0x5C, 117, 102, 102, 102, 100]
  | .rune u =>
    if u = [0xE2, 0x80, 0xA8] then [0x5C, 117, 50, 48, 50, 56]
    else if u = [0xE2, 0x80, 0xA9] then [0x5C, 117, 50, 48, 50, 57]
    else if u.length = 1 then u.flatMap escapeByte
    else u

def escape (s : Bytes) : Bytes := (chunks s).flatMap escapeChunk

/-- The literal of a string. -/
def quote (s : Bytes) : Bytes := 0x22 :: (escape s ++ [0x22])

/-! ## Scanning -/

inductive Tok where
  | byte (b : UInt8)
  | unit (u : Nat)

def hexValue (c : UInt8) : Option Nat :=
  if 48 ≤ c ∧ c ≤ 57 then some (c.toNat - 48)
  else if 97 ≤ c ∧ c ≤ 102 then some (c.toNat - 87)
  else if 65 ≤ c ∧ c ≤ 70 then some (c.toNat - 55)
  else none

def hex4 (c₁ c₂ c₃ c₄ : UInt8) : Option Nat :=
  match hexValue c₁, hexValue c₂, hexValue c₃, hexValue c₄ with
  | some a, some b, some c, some d => some (((a * 16 + b) * 16 + c) * 16 + d)
  | _, _, _, _ => none

/-- The byte that a character after a backslash stands for. -/
def unescape (c : UInt8) : Option UInt8 :=
  if c = 0x22 ∨ c = 0x5C ∨ c = 0x2F then some c
  else if c = 98 then some 8
  else if c = 102 then some 12
  else if c = 110 then some 10
  else if c = 114 then some 13
  else if c = 116 then some 9
  else none

def consTok (t : Tok) (p : List Tok × Bytes) : List Tok × Bytes := (t :: p.1, p.2)

/-- Read a string literal whose opening quote is read already. -/
def scanString : Bytes → Option (List Tok × Bytes)
  | [] => none
  | b :: s =>
    if b = 0x22 then some ([], s)
    else if b = 0x5C then
      match s with
      | [] => none
      | c :: s =>
        if c = 117 then
          match s with
          | c₁ :: c₂ :: c₃ :: c₄ :: s =>
            match hex4 c₁ c₂ c₃ c₄ with
            | some u => (scanString s).map (consTok (.unit u))
            | none => none
          | _ => none
        else
          match unescape c with
          | some b => (scanString s).map (consTok (.byte b))
          | none => none
    else if b < 0x20 then none
    else (scanString s).map (consTok (.byte b))

theorem scanString_quote (s : Bytes) : scanString (0x22 :: s) = some ([], s) := by
  unfold scanString
  simp

theorem scanString_unit {c₁ c₂ c₃ c₄ : UInt8} {u : Nat} (h : hex4 c₁ c₂ c₃ c₄ = some u)
    (s : Bytes) :
    scanString (0x5C :: 117 :: c₁ :: c₂ :: c₃ :: c₄ :: s) =
      (scanString s).map (consTok (.unit u)) := by
  conv_lhs => unfold scanString
  simp [h]

theorem scanString_unescape {c b : UInt8} (h : unescape c = some b) (s : Bytes) :
    scanString (0x5C :: c :: s) = (scanString s).map (consTok (.byte b)) := by
  have hc : c ≠ 117 := by
    rintro rfl
    cases h
  conv_lhs => unfold scanString
  simp [hc, h]

theorem scanString_byte {b : UInt8} (hquote : b ≠ 0x22) (hslash : b ≠ 0x5C) (hctl : 0x20 ≤ b)
    (s : Bytes) : scanString (b :: s) = (scanString s).map (consTok (.byte b)) := by
  conv_lhs => unfold scanString
  simp [hquote, hslash, UInt8.not_lt.2 hctl]

theorem map_consTok_append {s r t : Bytes} {tok : Tok} {ts : List Tok}
    (ih : ∀ {ts : List Tok}, scanString s = some (ts, r) → scanString (s ++ t) = some (ts, r ++ t))
    (h : (scanString s).map (consTok tok) = some (ts, r)) :
    (scanString (s ++ t)).map (consTok tok) = some (ts, r ++ t) := by
  obtain ⟨⟨ts', r'⟩, hs, heq⟩ := Option.map_eq_some_iff.1 h
  cases heq
  rw [ih hs]
  rfl

/-- A scanned literal is stable under more input. -/
theorem scanString_append {s r : Bytes} {ts : List Tok} (t : Bytes)
    (h : scanString s = some (ts, r)) : scanString (s ++ t) = some (ts, r ++ t) := by
  fun_induction scanString s generalizing ts with
  | case2 s =>
    cases h
    exact scanString_quote _
  | case4 c₁ c₂ c₃ c₄ s u hu _ ih =>
    simp only [List.cons_append]
    rw [scanString_unit hu]
    exact map_consTok_append ih h
  | case7 c s _ b hb _ ih =>
    simp only [List.cons_append]
    rw [scanString_unescape hb]
    exact map_consTok_append ih h
  | case10 b s hquote hslash hctl ih =>
    rw [List.cons_append, scanString_byte hquote hslash (UInt8.not_lt.1 hctl)]
    exact map_consTok_append ih h
  | _ => cases h

/-! ## Unquoting -/

def isHigh (u : Nat) : Bool := 0xD800 ≤ u && u < 0xDC00

def isLow (u : Nat) : Bool := 0xDC00 ≤ u && u < 0xE000

/-- The bytes of a scanned literal, after a high surrogate that waits for its partner. A
    pair of surrogates is one rune, a surrogate without its partner reads as U+FFFD. -/
def expandAfter : Option Nat → List Tok → Bytes
  | none, [] => []
  | some _, [] => replacement
  | none, .byte b :: ts => b :: expandAfter none ts
  | some _, .byte b :: ts => replacement ++ b :: expandAfter none ts
  | none, .unit u :: ts =>
    if isHigh u then expandAfter (some u) ts else encodeRune u ++ expandAfter none ts
  | some high, .unit u :: ts =>
    if isLow u then
      encodeRune (0x10000 + (high - 0xD800) * 0x400 + (u - 0xDC00)) ++ expandAfter none ts
    else if isHigh u then replacement ++ expandAfter (some u) ts
    else replacement ++ encodeRune u ++ expandAfter none ts

def expand (ts : List Tok) : Bytes := expandAfter none ts

/-- No escape ends in the middle of an encoding, so the bytes that stand for themselves
    can be coerced together with the rest. -/
def unquote (ts : List Tok) : Bytes := coerce (expand ts)

/-! ## Reading back what was escaped -/

/-- Inside a literal the text `e` reads as `u`. -/
def Reads (e u : Bytes) : Prop :=
  ∃ ts : List Tok,
    (∀ t, scanString (e ++ t) = (scanString t).map fun p => (ts ++ p.1, p.2)) ∧
    ∀ us, expand (ts ++ us) = u ++ expand us

theorem Reads.nil : Reads [] [] := by
  refine ⟨[], ?_, fun us => rfl⟩
  intro t
  simp

theorem Reads.append {e e' u u' : Bytes} (h : Reads e u) (h' : Reads e' u') :
    Reads (e ++ e') (u ++ u') := by
  obtain ⟨ts, hscan, hexpand⟩ := h
  obtain ⟨ts', hscan', hexpand'⟩ := h'
  refine ⟨ts ++ ts', ?_, ?_⟩
  · intro t
    rw [List.append_assoc, hscan, hscan', Option.map_map]
    simp [Function.comp_def]
  · intro us
    rw [List.append_assoc, hexpand, hexpand', List.append_assoc]

theorem Reads.byte {b : UInt8} (hquote : b ≠ 0x22) (hslash : b ≠ 0x5C) (hctl : 0x20 ≤ b) :
    Reads [b] [b] :=
  ⟨[.byte b], fun t => scanString_byte hquote hslash hctl t, fun _ => rfl⟩

theorem Reads.unescape {c b : UInt8} (h : unescape c = some b) : Reads [0x5C, c] [b] :=
  ⟨[.byte b], fun t => scanString_unescape h t, fun _ => rfl⟩

theorem Reads.unit {c₁ c₂ c₃ c₄ : UInt8} {u : Nat} (h : hex4 c₁ c₂ c₃ c₄ = some u)
    (hu : isHigh u = false) : Reads [0x5C, 117, c₁, c₂, c₃, c₄] (encodeRune u) := by
  refine ⟨[.unit u], fun t => scanString_unit h t, ?_⟩
  intro us
  simp [expand, expandAfter, hu]

theorem Reads.bytes {u : Bytes} (hu : ∀ b ∈ u, 0x80 ≤ b) : Reads u u := by
  induction u with
  | nil => exact .nil
  | cons b u ih =>
    have hb : 0x80 ≤ b := hu b List.mem_cons_self
    have hread : Reads [b] [b] := by
      refine .byte ?_ ?_ (UInt8.le_trans (by decide) hb)
      · rintro rfl
        exact absurd hb (by decide)
      · rintro rfl
        exact absurd hb (by decide)
    exact hread.append (ih fun c hc => hu c (List.mem_cons_of_mem _ hc))

theorem hexValue_hexDigit : ∀ n, n < 16 → hexValue (hexDigit n) = some n := by decide

theorem encodeRune_ascii {b : UInt8} (hb : b < 0x80) : encodeRune b.toNat = [b] := by
  have hlt : b.toNat < 0x80 := hb
  simp [encodeRune, hlt]

theorem reads_hex {b : UInt8} (hb : b < 0x80) :
    Reads [0x5C, 117, 48, 48, hexDigit (b.toNat / 16), hexDigit (b.toNat % 16)] [b] := by
  have hlt : b.toNat < 0x80 := hb
  have hhex : hex4 48 48 (hexDigit (b.toNat / 16)) (hexDigit (b.toNat % 16)) = some b.toNat := by
    have hzero : hexValue 48 = some 0 := by decide
    simp only [hex4, hzero, hexValue_hexDigit (b.toNat / 16) (by omega),
      hexValue_hexDigit (b.toNat % 16) (by omega), Option.some.injEq]
    omega
  rw [← encodeRune_ascii hb]
  refine .unit hhex ?_
  simp only [isHigh, Bool.and_eq_false_iff, decide_eq_false_iff_not]
  omega

theorem reads_escapeByte {b : UInt8} (hb : b < 0x80) : Reads (escapeByte b) [b] := by
  unfold escapeByte
  split_ifs with hquote hbs hff hnl hcr htab hctl
  · refine .unescape ?_
    rcases hquote with rfl | rfl <;> decide
  · subst hbs
    exact .unescape (by decide)
  · subst hff
    exact .unescape (by decide)
  · subst hnl
    exact .unescape (by decide)
  · subst hcr
    exact .unescape (by decide)
  · subst htab
    exact .unescape (by decide)
  · exact reads_hex hb
  · simp only [not_or] at hquote hctl
    exact .byte hquote.1 hquote.2 (UInt8.not_lt.1 hctl.1)

theorem reads_escapeChunk {c : Chunk} (hc : ∀ u, c = .rune u → IsRune u) :
    Reads (escapeChunk c) c.coerce := by
  cases c with
  | invalid b => exact .unit (u := 0xFFFD) (by decide) (by decide)
  | rune u =>
    have hu := hc u rfl
    simp only [escapeChunk, Chunk.coerce]
    split_ifs with hline hpara hlen
    · subst hline
      exact .unit (u := 0x2028) (by decide) (by decide)
    · subst hpara
      exact .unit (u := 0x2029) (by decide) (by decide)
    · obtain ⟨b, rfl⟩ := List.length_eq_one_iff.1 hlen
      simpa using reads_escapeByte (isRune_singleton.1 hu)
    · exact .bytes (isRune_bytes hu hlen)

theorem reads_escape (s : Bytes) : Reads (escape s) (coerce s) := by
  have hall : ∀ cs : List Chunk, (∀ u, .rune u ∈ cs → IsRune u) →
      Reads (cs.flatMap escapeChunk) (cs.flatMap Chunk.coerce) := by
    intro cs hcs
    induction cs with
    | nil => exact .nil
    | cons c cs ih =>
      have hc : ∀ u, c = .rune u → IsRune u := fun u heq => hcs u (by simp [heq])
      exact (reads_escapeChunk hc).append (ih fun u hu => hcs u (List.mem_cons_of_mem _ hu))
  exact hall _ fun u hu => isRune_of_mem hu

theorem scanString_escape (s t : Bytes) :
    ∃ ts, scanString (escape s ++ 0x22 :: t) = some (ts, t) ∧ unquote ts = coerce s := by
  obtain ⟨ts, hscan, hexpand⟩ := reads_escape s
  refine ⟨ts, ?_, ?_⟩
  · simp [hscan, scanString_quote]
  · have h := hexpand []
    rw [List.append_nil] at h
    rw [unquote, h]
    simpa [expand, expandAfter] using coerce_coerce s

end Json
