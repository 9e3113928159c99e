-- SUMMARY: Decoding JSON documents into Go values the way `encoding/json` does, one type former at a time.
import LazyDhtc.Lib.Json.Read
import LazyDhtc.Lib.Base64

/-!
# Decoding into Go values

Go decodes a document into a variable that may hold something already. `null` leaves most
variables alone, a document of the wrong type is skipped and reported when the rest is
decoded, and an object sets those fields of a struct that it names. A decoder here takes
the value that the variable holds and returns the new one and whether all went well.
-/

namespace Json

abbrev Decoder (α : Type) := α → Value → α × Bool

/-! ## Scalars -/

def decodeString : Decoder Bytes
  | _, .str s => (s, true)
  | cur, .null => (cur, true)
  | cur, _ => (cur, false)

/-- An unsigned integer type of `bits` bits. -/
def decodeNat (bits : Nat) : Decoder Nat
  | cur, .num n =>
    match readNat n.lit with
    | some k => if k < 2 ^ bits then (k, true) else (cur, false)
    | none => (cur, false)
  | cur, .null => (cur, true)
  | cur, _ => (cur, false)

def decodeUInt64 : Decoder UInt64 := fun cur v =>
  match decodeNat 64 cur.toNat v with
  | (n, ok) => (.ofNat n, ok)

def decodeInt64 : Decoder Int64
  | cur, .num n =>
    match readInt n.lit with
    | some i => if -2 ^ 63 ≤ i ∧ i < 2 ^ 63 then (.ofInt i, true) else (cur, false)
    | none => (cur, false)
  | cur, .null => (cur, true)
  | cur, _ => (cur, false)

/-! ## Slices -/

/-- A slice: the elements are decoded into new variables. -/
def decodeSlice {α : Type} (elem : Decoder α) (zero : α) : Decoder (List α)
  | _, .arr vs => (vs.map fun v => (elem zero v).1, vs.all fun v => (elem zero v).2)
  | _, .null => ([], true)
  | cur, _ => (cur, false)

/-- A `[]byte` is a string in base64, or an array of numbers. -/
def decodeBytes : Decoder Bytes
  | cur, .str s =>
    match Base64.decode s with
    | some bs => (bs, true)
    | none => (cur, false)
  | cur, v =>
    match decodeSlice (decodeNat 8) 0 (cur.map UInt8.toNat) v with
    | (ns, ok) => (ns.map UInt8.ofNat, ok)

/-! ## Structs -/

/-- The case folding of field names: ASCII letters, and the two runes outside ASCII that
    fold to a letter, U+017F and U+212A. -/
def foldName : Bytes → Bytes
  | [] => []
  | 0xC5 :: 0xBF :: s => 83 :: foldName s
  | 0xE2 :: 0x84 :: 0xAA :: s => 75 :: foldName s
  | b :: s => (if 97 ≤ b ∧ b ≤ 122 then b - 32 else b) :: foldName s

/-- A field of a struct: its name and how to decode into it. -/
structure StructField (σ : Type) where
  name : Bytes
  decode : Decoder σ

/-- The field with that name, else the first with that name up to case. -/
def findField {σ : Type} (fields : List (StructField σ)) (key : Bytes) : Option (StructField σ) :=
  match fields.find? fun f => f.name = key with
  | some f => some f
  | none => fields.find? fun f => foldName f.name = foldName key

def decodeMember {σ : Type} (fields : List (StructField σ)) (res : σ × Bool) (m : Bytes × Value) :
    σ × Bool :=
  match findField fields m.1 with
  | some f =>
    match f.decode res.1 m.2 with
    | (s, ok) => (s, res.2 && ok)
  | none => res

def decodeStruct {σ : Type} (fields : List (StructField σ)) : Decoder σ
  | cur, .obj ms => ms.foldl (decodeMember fields) (cur, true)
  | cur, .null => (cur, true)
  | cur, _ => (cur, false)

/-- The decoder of a field, from the decoder of its type and how to set it. -/
def field {σ α : Type} (name : String) (get : σ → α) (set : σ → α → σ) (decode : Decoder α) :
    StructField σ where
  name := ascii name
  decode s v :=
    match decode (get s) v with
    | (a, ok) => (set s a, ok)

/-! ## Encoders -/

def ofUInt64 (n : UInt64) : Value := .num (.ofNat n.toNat)

def ofInt64 (i : Int64) : Value := .num (.ofInt i.toInt)

/-- A slice, `null` if it is nil. -/
def ofSlice {α : Type} (elem : α → Value) (as : List α) : Value :=
  if as = [] then .null else .arr (as.map elem)

/-- A `[]byte`, `null` if it is nil. -/
def ofBytes (bs : Bytes) : Value := if bs = [] then .null else .str (Base64.encode bs)

/-! ## Round trips -/

theorem coerceElems_eq (vs : List Value) : coerceElems vs = vs.map Value.coerce := by
  induction vs with
  | nil => rw [coerceElems, List.map_nil]
  | cons v vs ih => rw [coerceElems, ih, List.map_cons]

theorem decodeUInt64_of (cur n : UInt64) : decodeUInt64 cur (ofUInt64 n).coerce = (n, true) := by
  have hn : n.toNat < 2 ^ 64 := n.toNat_lt
  simp only [decodeUInt64, decodeNat, ofUInt64, Value.coerce, readNat_ofNat, hn, if_true,
    UInt64.ofNat_toNat]

theorem decodeInt64_of (cur i : Int64) : decodeInt64 cur (ofInt64 i).coerce = (i, true) := by
  have hle : -2 ^ 63 ≤ i.toInt := i.le_toInt
  have hlt : i.toInt < 2 ^ 63 := i.toInt_lt
  simp only [decodeInt64, ofInt64, Value.coerce, readInt_ofInt, hle, hlt, and_self, if_true,
    Int64.ofInt_toInt]

theorem valid_base64 (bs : Bytes) : Utf8.coerce (Base64.encode bs) = Base64.encode bs := by
  refine Utf8.coerce_eq_self_iff.2 (Utf8.valid_ascii ?_)
  intro b hb
  rcases Base64.isChar_of_mem_encode hb with rfl | ⟨n, hn, rfl⟩
  · decide
  · exact (Base64.digit_range hn).2.2.2.2.1

theorem decodeBytes_of (cur bs : Bytes) : decodeBytes cur (ofBytes bs).coerce = (bs, true) := by
  unfold ofBytes
  split_ifs with hnil
  · simp [Value.coerce, decodeBytes, decodeSlice, hnil]
  · simp [Value.coerce, decodeBytes, valid_base64, Base64.decode_encode]

theorem decodeString_of (cur s : Bytes) :
    decodeString cur (Value.str s).coerce = (Utf8.coerce s, true) := by
  simp [Value.coerce, decodeString]

/-- Elements that survive the way survive in a slice. -/
theorem decodeSlice_arr {α : Type} {elem : Decoder α} {zero : α} {enc : α → Value} {f : α → α}
    (h : ∀ a, elem zero (enc a).coerce = (f a, true)) (cur as : List α) :
    decodeSlice elem zero cur (Value.arr (as.map enc)).coerce = (as.map f, true) := by
  simp [Value.coerce, decodeSlice, coerceElems_eq, h]

theorem decodeSlice_of {α : Type} {elem : Decoder α} {zero : α} {enc : α → Value} {f : α → α}
    (h : ∀ a, elem zero (enc a).coerce = (f a, true)) (cur as : List α) :
    decodeSlice elem zero cur (ofSlice enc as).coerce = (as.map f, true) := by
  unfold ofSlice
  split_ifs with hnil
  · simp [Value.coerce, decodeSlice, hnil]
  · exact decodeSlice_arr h cur as

/-- One member of an object that names a field. -/
theorem foldl_field {σ α : Type} (fields : List (StructField σ)) {k : Bytes} {v : Value}
    {name : String} {get : σ → α} {set : σ → α → σ} {decode : Decoder α}
    (hf : findField fields (Utf8.coerce k) = some (field name get set decode)) {s : σ} {a : α}
    (hv : decode (get s) v.coerce = (a, true)) (ms : List (Bytes × Value)) :
    (coerceMembers ((k, v) :: ms)).foldl (decodeMember fields) (s, true) =
      (coerceMembers ms).foldl (decodeMember fields) (set s a, true) := by
  rw [coerceMembers, List.foldl_cons]
  simp [decodeMember, hf, field, hv]

/-! ## Sizes -/

/-- The size of an integer literal. -/
def intSize (i : Int) : Nat := digitCount i.natAbs + if i < 0 then 1 else 0

def bytesSize (bs : Bytes) : Nat := if bs = [] then 4 else (bs.length + 2) / 3 * 4 + 2

/-- The size of a slice whose elements have these sizes. -/
def sliceSize (sizes : List Nat) : Nat :=
  if sizes = [] then 4 else (sizes.map (· + 1)).sum + 1

theorem length_ofUInt64 (n : UInt64) : (encode (ofUInt64 n)).length = digitCount n.toNat := by
  rw [ofUInt64, encode]
  exact length_decimal _

theorem length_ofInt64 (i : Int64) : (encode (ofInt64 i)).length = intSize i.toInt := by
  rw [ofInt64, encode]
  cases i.toInt with
  | ofNat n =>
    have hn : ¬ Int.ofNat n < 0 := by simp
    simp only [intSize, if_neg hn]
    exact length_decimal n
  | negSucc n =>
    have hn : Int.negSucc n < 0 := Int.negSucc_lt_zero n
    simp only [intSize, if_pos hn]
    exact congrArg (· + 1) (length_decimal (n + 1))

theorem textSize_base64 (bs : Bytes) :
    textSize (Base64.encode bs) = (bs.length + 2) / 3 * 4 + 2 := by
  have hdigit : ∀ n, n < 64 → Base64.digit n < 0x80 ∧ byteSize (Base64.digit n) = 1 := by decide
  have hascii : ∀ b ∈ Base64.encode bs, b < 0x80 ∧ byteSize b = 1 := by
    intro b hb
    rcases Base64.isChar_of_mem_encode hb with rfl | ⟨n, hn, rfl⟩
    · decide
    · exact hdigit n hn
  have hones : (Base64.encode bs).map byteSize = (Base64.encode bs).map fun _ => 1 :=
    List.map_congr_left fun b hb => (hascii b hb).2
  rw [textSize_ascii fun b hb => (hascii b hb).1, hones]
  simp [Base64.length_encode]

theorem length_ofBytes (bs : Bytes) : (encode (ofBytes bs)).length = bytesSize bs := by
  unfold ofBytes bytesSize
  split_ifs with hnil
  · rw [encode]
    rfl
  · rw [length_encode_str, textSize_base64]

theorem length_ofSlice {α : Type} {elem : α → Value} {size : α → Nat}
    (h : ∀ a, (encode (elem a)).length = size a) (as : List α) :
    (encode (ofSlice elem as)).length = sliceSize (as.map size) := by
  unfold ofSlice sliceSize
  by_cases hnil : as = []
  · subst hnil
    rfl
  · simp [hnil, length_encode_arr, Function.comp_def, h]

/-! ## Depth -/

theorem depthElems_le {d : Nat} {vs : List Value} (h : ∀ v ∈ vs, v.depth ≤ d) :
    depthElems vs ≤ d := by
  induction vs with
  | nil => exact Nat.zero_le d
  | cons v vs ih =>
    rw [depthElems]
    exact max_le (h v List.mem_cons_self) (ih fun w hw => h w (List.mem_cons_of_mem _ hw))

theorem depthMembers_le {d : Nat} {ms : List (Bytes × Value)} (h : ∀ m ∈ ms, m.2.depth ≤ d) :
    depthMembers ms ≤ d := by
  induction ms with
  | nil => exact Nat.zero_le d
  | cons m ms ih =>
    rw [depthMembers]
    exact max_le (h m List.mem_cons_self) (ih fun w hw => h w (List.mem_cons_of_mem _ hw))

/-- An object is one deeper than its members. -/
theorem depth_obj_le {d : Nat} {ms : List (Bytes × Value)} (h : ∀ m ∈ ms, m.2.depth ≤ d) :
    (Value.obj ms).depth ≤ d + 1 := by
  rw [Value.depth]
  exact Nat.succ_le_succ (depthMembers_le h)

theorem depth_arr_le {d : Nat} {vs : List Value} (h : ∀ v ∈ vs, v.depth ≤ d) :
    (Value.arr vs).depth ≤ d + 1 := by
  rw [Value.depth]
  exact Nat.succ_le_succ (depthElems_le h)

@[simp] theorem depth_ofUInt64 (n : UInt64) : (ofUInt64 n).depth = 0 := by
  simp [ofUInt64, Value.depth]

@[simp] theorem depth_ofInt64 (i : Int64) : (ofInt64 i).depth = 0 := by
  simp [ofInt64, Value.depth]

@[simp] theorem depth_str (s : Bytes) : (Value.str s).depth = 0 := by simp [Value.depth]

theorem depth_ofSlice {α : Type} {elem : α → Value} {d : Nat} (h : ∀ a, (elem a).depth ≤ d)
    (as : List α) : (ofSlice elem as).depth ≤ d + 1 := by
  unfold ofSlice
  split_ifs
  · simp [Value.depth]
  · refine depth_arr_le ?_
    simpa using fun a _ => h a

@[simp] theorem depth_ofBytes (bs : Bytes) : (ofBytes bs).depth = 0 := by
  unfold ofBytes
  split_ifs <;> rw [Value.depth] <;> simp

end Json
