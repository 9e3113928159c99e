-- SUMMARY: The codecs of compact peers, compact nodes and errors, and that they are inverse to each other.
import LazyDhtc.DhtClient.AddrText
import LazyDhtc.Lib.Bencode
import LazyDhtc.Lib.Records

/-!
# Compact encodings

The bencode library is a parameter. What the codecs rely on is that it reads back the
strings, integers and lists that it has written.
-/

namespace DhtClient

open Records

/-! ## The bencode library -/

/-- What `bencode.Unmarshal` stores in an `any`. -/
inductive BencodeAny where
  | int64 (n : Int64)
  | string (s : Bytes)
  | bytes (s : Bytes)
  | list (vs : List BencodeAny)
  /-- a dictionary, or an integer that does not fit -/
  | other

/-- `bencode.Marshal`, and `bencode.Unmarshal` into a `[]byte`, a `[][]byte` and an `any`. -/
structure BencodeLib (ε : Type) where
  marshal : Bencode.Value → Bytes
  unmarshalBytes : Bytes → Except ε Bytes
  unmarshalList : Bytes → Except ε (List Bytes)
  unmarshalAny : Bytes → Except ε BencodeAny

/-- The library reads what it has written. -/
structure BencodeLib.Faithful {ε : Type} (lib : BencodeLib ε) : Prop where
  empty : lib.marshal (.str []) = ascii "0:"
  bytes : ∀ s, lib.unmarshalBytes (lib.marshal (.str s)) = .ok s
  list : ∀ l : List Bytes, lib.unmarshalList (lib.marshal (.list (l.map .str))) = .ok l
  any : ∀ (n : Int64) (s : Bytes), ∃ v, (v = .string s ∨ v = .bytes s) ∧
    lib.unmarshalAny (lib.marshal (.list [.int n.toInt, .str s])) = .ok (.list [.int64 n, v])

/-! ## Data -/

structure CompactPeer where
  addr : AddrPort
deriving DecidableEq

structure CompactNodeInfo where
  id : Bytes
  addr : AddrPort
deriving DecidableEq

/-- A KRPC error. -/
structure Error where
  code : Int64
  message : Bytes
deriving DecidableEq

/-- The errors of the codecs. -/
inductive CodecError (ε : Type) where
  | bencode (err : ε)
  /-- `bad compact peer string: %q` -/
  | badPeerString (b : Bytes)
  /-- `invalid compact peer address` -/
  | invalidPeerAddress
  /-- `compact peer info length %d is neither a multiple of 6 nor 18` -/
  | peerInfoLength (length : Nat)
  /-- `compact node length %d is not a multiple of %d` -/
  | nodeLength (length nodeSize : Nat)
  /-- `invalid compact node info length: %d` -/
  | nodeInfoLength (length : Nat)
  /-- `invalid compact node address` -/
  | invalidNodeAddress
  /-- `invalid error type: %T` -/
  | errorType (v : BencodeAny)
  /-- `invalid error list length: %d` -/
  | errorListLength (length : Nat)
  /-- `invalid error code type: %T` -/
  | errorCodeType (v : BencodeAny)
  /-- `invalid error message type: %T` -/
  | errorMessageType (v : BencodeAny)

/-! ## Single peers and nodes -/

/-- `netip.Addr.AsSlice`. -/
def Addr.asSlice : Addr → Bytes
  | .invalid => []
  | .v4 bytes => bytes.toList
  | .v6 bytes _ => bytes.toList

/-- `binary.BigEndian.PutUint16`. -/
def putUint16 (n : UInt16) : Bytes := [(n >>> 8).toUInt8, n.toUInt8]

def CompactPeer.marshalBinary (cp : CompactPeer) : Bytes :=
  if cp.addr.isValid then cp.addr.addr.asSlice ++ putUint16 cp.addr.port else []

def CompactPeer.unmarshalBinary {ε : Type} (b : Bytes) : Except (CodecError ε) CompactPeer :=
  if b.length = 18 ∨ b.length = 6 then
    match addrFromSlice (b.take (b.length - 2)) with
    | none => .error .invalidPeerAddress
    | some ip => .ok ⟨ip.unmap, uint16OfBE (b.drop (b.length - 2))⟩
  else .error (.badPeerString b)

def CompactNodeInfo.marshalBinary (cni : CompactNodeInfo) : Bytes :=
  if cni.addr.isValid then padTo 20 cni.id ++ cni.addr.addr.asSlice ++ putUint16 cni.addr.port
  else []

def CompactNodeInfo.unmarshalBinary {ε : Type} (b : Bytes) :
    Except (CodecError ε) CompactNodeInfo :=
  if b.length ≠ 26 ∧ b.length ≠ 38 then .error (.nodeInfoLength b.length)
  else
    let id := b.take 20
    let b := b.drop 20
    let ipLen := if b.length = 6 then 4 else 16
    match addrFromSlice (b.take ipLen) with
    | none => .error .invalidNodeAddress
    | some ip => .ok ⟨id, ⟨ip.unmap, uint16OfBE (b.drop ipLen)⟩⟩

/-! ## Lists of peers and nodes -/

section

variable {ε : Type} (lib : BencodeLib ε)

def CompactPeers.marshalBencode (cps : List CompactPeer) : Bytes :=
  lib.marshal (.list ((cps.map CompactPeer.marshalBinary).map .str))

def unmarshalCompactPeers (b : Bytes) : Except (CodecError ε) (List CompactPeer) :=
  if b.length = 0 then .ok []
  else if b.length % 6 = 0 then readAll CompactPeer.unmarshalBinary 6 b
  else if b.length % 18 = 0 then readAll CompactPeer.unmarshalBinary 18 b
  else .error (.peerInfoLength b.length)

/-- Both a list of strings and a single string are peers. -/
def CompactPeers.unmarshalBencode (b : Bytes) : Except (CodecError ε) (List CompactPeer) :=
  match lib.unmarshalList b with
  | .ok list => list.mapM CompactPeer.unmarshalBinary
  | .error _ =>
    match lib.unmarshalBytes b with
    | .error err => .error (.bencode err)
    | .ok bb => unmarshalCompactPeers bb

def CompactNodeInfos.marshalBencode (cnis : List CompactNodeInfo) : Bytes :=
  if cnis.length = 0 then ascii "0:"
  else lib.marshal (.str (writeAll CompactNodeInfo.marshalBinary cnis))

def unmarshalCompactNodeInfosBencode (b : Bytes) (nodeSize : Nat) :
    Except (CodecError ε) (List CompactNodeInfo) :=
  match lib.unmarshalBytes b with
  | .error err => .error (.bencode err)
  | .ok raw =>
    if raw.length % nodeSize ≠ 0 then .error (.nodeLength raw.length nodeSize)
    else readAll CompactNodeInfo.unmarshalBinary nodeSize raw

def CompactNodeInfos4.marshalBencode (cnis : List CompactNodeInfo) : Bytes :=
  CompactNodeInfos.marshalBencode lib cnis

def CompactNodeInfos6.marshalBencode (cnis : List CompactNodeInfo) : Bytes :=
  CompactNodeInfos.marshalBencode lib cnis

def CompactNodeInfos4.unmarshalBencode (b : Bytes) : Except (CodecError ε) (List CompactNodeInfo) :=
  unmarshalCompactNodeInfosBencode lib b 26

def CompactNodeInfos6.unmarshalBencode (b : Bytes) : Except (CodecError ε) (List CompactNodeInfo) :=
  unmarshalCompactNodeInfosBencode lib b 38

/-! ## Errors -/

def Error.marshalBencode (e : Error) : Bytes :=
  lib.marshal (.list [.int e.code.toInt, .str e.message])

def Error.unmarshalBencode (b : Bytes) : Except (CodecError ε) Error :=
  match lib.unmarshalAny b with
  | .error err => .error (.bencode err)
  | .ok (.list l) =>
    match l with
    | code :: message :: _ =>
      match code with
      | .int64 code =>
        match message with
        | .bytes v => .ok ⟨code, v⟩
        | .string v => .ok ⟨code, v⟩
        | v => .error (.errorMessageType v)
      | v => .error (.errorCodeType v)
    | _ => .error (.errorListLength l.length)
  | .ok v => .error (.errorType v)

end

/-! ## One address -/

theorem putUint16_uint16OfBE {b : Bytes} (h : b.length = 2) : putUint16 (uint16OfBE b) = b := by
  match b, h with
  | [x, y], _ =>
    have hx := x.toNat_lt
    have hy := y.toNat_lt
    have hval : (uint16OfBE [x, y]).toNat = x.toNat * 256 + y.toNat := by
      simp only [uint16OfBE, List.take_succ_cons, List.take_zero, beNat, List.length_cons,
        List.length_nil, UInt16.toNat_ofNat']
      omega
    have hhigh : (uint16OfBE [x, y] >>> 8).toUInt8 = x := by
      rw [← UInt8.toNat_inj]
      simp [hval, Nat.shiftRight_eq_div_pow]
      omega
    have hlow : (uint16OfBE [x, y]).toUInt8 = y := by
      rw [← UInt8.toNat_inj]
      simp [hval]
    rw [putUint16, hhigh, hlow]

theorem uint16OfBE_putUint16 (n : UInt16) : uint16OfBE (putUint16 n) = n := by
  have hn := n.toNat_lt
  rw [← UInt16.toNat_inj]
  simp [uint16OfBE, putUint16, beNat, Nat.shiftRight_eq_div_pow]
  omega

@[simp] theorem length_putUint16 (n : UInt16) : (putUint16 n).length = 2 := rfl

/-- An address that the codecs keep: without a zone, and not an IPv4 address as IPv6. -/
def Addr.Plain : Addr → Prop
  | .invalid => False
  | .v4 _ => True
  | .v6 bytes zone => zone = [] ∧ is4In6 bytes = false

theorem Addr.Plain.isValid {a : Addr} (h : a.Plain) : a.isValid = true := by
  cases a with
  | invalid => exact h.elim
  | v4 bytes => rfl
  | v6 bytes zone => rfl

theorem Addr.Plain.unmap {a : Addr} (h : a.Plain) : a.unmap = a := by
  cases a with
  | invalid => rfl
  | v4 bytes => rfl
  | v6 bytes zone => simpa [Addr.unmap, is4In6] using h.2

theorem Addr.Plain.addrFromSlice {a : Addr} (h : a.Plain) : addrFromSlice a.asSlice = some a := by
  cases a with
  | invalid => exact h.elim
  | v4 bytes => exact addrFromSlice_v4 bytes
  | v6 bytes zone =>
    obtain ⟨rfl, -⟩ := h
    exact addrFromSlice_v6 bytes

theorem Addr.length_asSlice {a : Addr} (h : a.isValid = true) :
    a.asSlice.length = if a.is4 = true then 4 else 16 := by
  cases a with
  | invalid => cases h
  | v4 bytes => simp [Addr.asSlice, Addr.is4]
  | v6 bytes zone => simp [Addr.asSlice, Addr.is4]

/-- The bytes of an IPv4-mapped IPv6 address. -/
def mapped (ip : Bytes) : Bool := ip.length = 16 ∧ ip.take 12 = List.replicate 10 0 ++ [0xff, 0xff]

/-- An address that is no IPv4-mapped one is read as it stands. -/
theorem addrFromSlice_plain {ip : Bytes} (hlen : ip.length = 4 ∨ ip.length = 16)
    (hmapped : mapped ip = false) :
    ∃ a, DhtClient.addrFromSlice ip = some a ∧ a.Plain ∧ a.asSlice = ip := by
  rcases hlen with hlen | hlen
  · refine ⟨.v4 ⟨ip.toArray, hlen⟩, ?_, trivial, rfl⟩
    rw [DhtClient.addrFromSlice, dif_pos hlen]
  · refine ⟨.v6 ⟨ip.toArray, hlen⟩ [], ?_, ⟨rfl, ?_⟩, rfl⟩
    · rw [DhtClient.addrFromSlice, dif_neg (by omega), dif_pos hlen]
    · simpa [mapped, hlen, is4In6, Vector.toList] using hmapped

theorem addrFromSlice_isSome {ip : Bytes} (hlen : ip.length = 4 ∨ ip.length = 16) :
    ∃ a, addrFromSlice ip = some a := by
  unfold addrFromSlice
  split_ifs with h4 h16
  · exact ⟨_, rfl⟩
  · exact ⟨_, rfl⟩
  · exact (hlen.elim h4 h16).elim

/-! ## One peer, one node -/

theorem CompactPeer.unmarshalBinary_marshalBinary {ε : Type} {cp : CompactPeer}
    (h : cp.addr.addr.Plain) : unmarshalBinary cp.marshalBinary = (.ok cp : Except (CodecError ε) _) := by
  have hlen := Addr.length_asSlice h.isValid
  have hmarshal : cp.marshalBinary = cp.addr.addr.asSlice ++ putUint16 cp.addr.port :=
    if_pos h.isValid
  have hsize : (cp.marshalBinary).length - 2 = cp.addr.addr.asSlice.length := by
    rw [hmarshal, List.length_append, length_putUint16, Nat.add_sub_cancel]
  have hall : (cp.marshalBinary).length = 18 ∨ (cp.marshalBinary).length = 6 := by
    rw [hmarshal, List.length_append, length_putUint16, hlen]
    split_ifs
    · exact .inr rfl
    · exact .inl rfl
  rw [unmarshalBinary, if_pos hall, hsize, hmarshal, List.take_left, List.drop_left,
    h.addrFromSlice]
  simp only [h.unmap, uint16OfBE_putUint16]

/-- A node whose identifier and address the codec keeps. -/
structure CompactNodeInfo.Plain (cni : CompactNodeInfo) : Prop where
  id : cni.id.length = 20
  addr : cni.addr.addr.Plain

namespace CompactNodeInfo

theorem Plain.marshalBinary_eq {cni : CompactNodeInfo} (h : cni.Plain) :
    cni.marshalBinary = cni.id ++ (cni.addr.addr.asSlice ++ putUint16 cni.addr.port) := by
  have hvalid : cni.addr.isValid = true := h.addr.isValid
  rw [marshalBinary, if_pos hvalid, padTo_of_length h.id, List.append_assoc]

theorem Plain.length_marshalBinary {cni : CompactNodeInfo} (h : cni.Plain) :
    cni.marshalBinary.length = if cni.addr.addr.is4 = true then 26 else 38 := by
  rw [h.marshalBinary_eq, List.length_append, List.length_append, h.id,
    Addr.length_asSlice h.addr.isValid, length_putUint16]
  split_ifs <;> rfl

/-- What the decoder makes of the three parts of a node. -/
theorem unmarshalBinary_parts {ε : Type} {id ip port : Bytes} (hid : id.length = 20)
    (hip : ip.length = 4 ∨ ip.length = 16) (hport : port.length = 2) :
    unmarshalBinary (id ++ (ip ++ port)) =
      (match addrFromSlice ip with
        | none => .error .invalidNodeAddress
        | some a => .ok ⟨id, ⟨a.unmap, uint16OfBE port⟩⟩ : Except (CodecError ε) _) := by
  have hlen : (id ++ (ip ++ port)).length = 22 + ip.length := by
    rw [List.length_append, List.length_append, hid, hport]
    omega
  have hsize : ¬ ((id ++ (ip ++ port)).length ≠ 26 ∧ (id ++ (ip ++ port)).length ≠ 38) := by
    omega
  have hipLen : (if (ip ++ port).length = 6 then 4 else 16) = ip.length := by
    rw [List.length_append, hport]
    rcases hip with h | h <;> rw [h] <;> rfl
  have htake : (id ++ (ip ++ port)).take 20 = id := by rw [← hid, List.take_left]
  have hdrop : (id ++ (ip ++ port)).drop 20 = ip ++ port := by rw [← hid, List.drop_left]
  simp only [unmarshalBinary, if_neg hsize, htake, hdrop, hipLen, List.take_left, List.drop_left]

theorem Plain.unmarshalBinary_marshalBinary {ε : Type} {cni : CompactNodeInfo} (h : cni.Plain) :
    unmarshalBinary cni.marshalBinary = (.ok cni : Except (CodecError ε) _) := by
  have hlen := Addr.length_asSlice h.addr.isValid
  have hip : cni.addr.addr.asSlice.length = 4 ∨ cni.addr.addr.asSlice.length = 16 := by
    rw [hlen]
    split_ifs
    · exact .inl rfl
    · exact .inr rfl
  rw [h.marshalBinary_eq, unmarshalBinary_parts h.id hip (length_putUint16 _),
    h.addr.addrFromSlice]
  simp only [h.addr.unmap, uint16OfBE_putUint16]

/-- The address part of an encoded node. -/
def ipPart (r : Bytes) : Bytes := (r.drop 20).take (r.length - 22)

/-- A string of the size of a node in its three parts. -/
theorem parts {r : Bytes} (h : r.length = 26 ∨ r.length = 38) :
    ∃ id port, r = id ++ (ipPart r ++ port) ∧ id.length = 20 ∧
      ((ipPart r).length = 4 ∨ (ipPart r).length = 16) ∧ port.length = 2 := by
  refine ⟨r.take 20, (r.drop 20).drop (r.length - 22), ?_, ?_, ?_, ?_⟩
  · rw [ipPart, List.take_append_drop, List.take_append_drop]
  · rw [List.length_take]
    omega
  · rw [ipPart, List.length_take, List.length_drop]
    omega
  · rw [List.length_drop, List.length_drop]
    omega

theorem unmarshalBinary_ok {ε : Type} {r : Bytes} (h : r.length = 26 ∨ r.length = 38) :
    ∃ cni, unmarshalBinary r = (.ok cni : Except (CodecError ε) _) := by
  obtain ⟨id, port, heq, hid, hip, hport⟩ := parts h
  obtain ⟨a, ha⟩ := addrFromSlice_isSome hip
  refine ⟨⟨id, ⟨a.unmap, uint16OfBE port⟩⟩, ?_⟩
  rw [heq, unmarshalBinary_parts hid hip hport, ha]

theorem marshalBinary_unmarshalBinary {ε : Type} {r : Bytes} (h : r.length = 26 ∨ r.length = 38)
    (hmapped : mapped (ipPart r) = false) :
    ∃ cni, unmarshalBinary r = (.ok cni : Except (CodecError ε) _) ∧ cni.marshalBinary = r := by
  obtain ⟨id, port, heq, hid, hip, hport⟩ := parts h
  obtain ⟨a, ha, hplain, hslice⟩ := addrFromSlice_plain hip hmapped
  have hcni : Plain ⟨id, ⟨a, uint16OfBE port⟩⟩ := ⟨hid, hplain⟩
  refine ⟨⟨id, ⟨a, uint16OfBE port⟩⟩, ?_, ?_⟩
  · rw [heq, unmarshalBinary_parts hid hip hport, ha]
    simp only [hplain.unmap]
  · rw [hcni.marshalBinary_eq]
    simp only [hslice, putUint16_uint16OfBE hport]
    exact heq.symm

end CompactNodeInfo

/-! ## Lists of nodes -/

/-- Nodes with identifiers of 20 bytes and IPv4 addresses. -/
def Nodes4 (cnis : List CompactNodeInfo) : Prop :=
  ∀ cni ∈ cnis, cni.id.length = 20 ∧ ∃ bytes, cni.addr.addr = .v4 bytes

/-- Nodes with identifiers of 20 bytes and IPv6 addresses that have no zone and are not
    IPv4-mapped. -/
def Nodes6 (cnis : List CompactNodeInfo) : Prop :=
  ∀ cni ∈ cnis, cni.id.length = 20 ∧
    ∃ bytes, cni.addr.addr = .v6 bytes [] ∧ is4In6 bytes = false

namespace Nodes4

variable {cnis : List CompactNodeInfo}

theorem plain (h : Nodes4 cnis) : ∀ cni ∈ cnis, cni.Plain := by
  intro cni hcni
  obtain ⟨hid, bytes, haddr⟩ := h cni hcni
  exact ⟨hid, by rw [haddr]; trivial⟩

theorem length_marshalBinary (h : Nodes4 cnis) : ∀ cni ∈ cnis, cni.marshalBinary.length = 26 := by
  intro cni hcni
  obtain ⟨-, bytes, haddr⟩ := h cni hcni
  rw [(h.plain cni hcni).length_marshalBinary, haddr]
  rfl

end Nodes4

namespace Nodes6

variable {cnis : List CompactNodeInfo}

theorem plain (h : Nodes6 cnis) : ∀ cni ∈ cnis, cni.Plain := by
  intro cni hcni
  obtain ⟨hid, bytes, haddr, hmapped⟩ := h cni hcni
  exact ⟨hid, by rw [haddr]; exact ⟨rfl, hmapped⟩⟩

theorem length_marshalBinary (h : Nodes6 cnis) : ∀ cni ∈ cnis, cni.marshalBinary.length = 38 := by
  intro cni hcni
  obtain ⟨-, bytes, haddr, -⟩ := h cni hcni
  rw [(h.plain cni hcni).length_marshalBinary, haddr]
  rfl

end Nodes6

section

variable {ε : Type} {lib : BencodeLib ε}

theorem CompactNodeInfos.marshalBencode_eq (h : lib.Faithful) (cnis : List CompactNodeInfo) :
    marshalBencode lib cnis = lib.marshal (.str (writeAll CompactNodeInfo.marshalBinary cnis)) := by
  unfold marshalBencode
  split_ifs with hnil
  · rw [List.length_eq_zero_iff.1 hnil]
    exact h.empty.symm
  · rfl

/-- Nodes of one size are decoded to what was encoded. -/
theorem nodes_roundtrip (h : lib.Faithful) {n : Nat} (hn : 0 < n) {cnis : List CompactNodeInfo}
    (hplain : ∀ cni ∈ cnis, cni.Plain) (hsize : ∀ cni ∈ cnis, cni.marshalBinary.length = n) :
    unmarshalCompactNodeInfosBencode lib (CompactNodeInfos.marshalBencode lib cnis) n =
      .ok cnis := by
  have hread := readAll_writeAll (ε := CodecError ε) hn hsize
    fun cni hcni => (hplain cni hcni).unmarshalBinary_marshalBinary
  have hlen : ¬ (writeAll CompactNodeInfo.marshalBinary cnis).length % n ≠ 0 := by
    rw [length_writeAll hsize, Nat.mul_mod_right]
    decide
  rw [CompactNodeInfos.marshalBencode_eq h, unmarshalCompactNodeInfosBencode, h.bytes]
  simp only [if_neg hlen]
  exact hread

/-- What is decoded at all are the strings whose length is a multiple of the size of a node. -/
theorem nodes_accepts {n : Nat} (hn : n = 26 ∨ n = 38) (b : Bytes) :
    (∃ cnis, unmarshalCompactNodeInfosBencode lib b n = .ok cnis) ↔
      ∃ raw, lib.unmarshalBytes b = .ok raw ∧ n ∣ raw.length := by
  unfold unmarshalCompactNodeInfosBencode
  cases lib.unmarshalBytes b with
  | error err => simp
  | ok raw =>
    simp only [Except.ok.injEq, exists_eq_left', Nat.dvd_iff_mod_eq_zero]
    split_ifs with hmod
    · simpa using hmod
    · refine iff_of_true ?_ (not_not.1 hmod)
      exact readAll_ok (fun r hr => CompactNodeInfo.unmarshalBinary_ok (by omega)) raw

/-- A decoded string without IPv4-mapped addresses is encoded again as it was. -/
theorem nodes_exact (h : lib.Faithful) {n : Nat} (hn : n = 26 ∨ n = 38) {raw : Bytes}
    (hraw : n ∣ raw.length)
    (hmapped : ∀ r ∈ split n raw, mapped (CompactNodeInfo.ipPart r) = false) :
    ∃ cnis, unmarshalCompactNodeInfosBencode lib (lib.marshal (.str raw)) n = .ok cnis ∧
      CompactNodeInfos.marshalBencode lib cnis = lib.marshal (.str raw) := by
  obtain ⟨cnis, hread, hwrite⟩ := writeAll_readAll (ε := CodecError ε) (by omega) hraw
    fun r hr => CompactNodeInfo.marshalBinary_unmarshalBinary
      (by rw [length_of_mem_split hr]; exact hn) (hmapped r hr)
  refine ⟨cnis, ?_, by rw [CompactNodeInfos.marshalBencode_eq h, hwrite]⟩
  have hmod : ¬ raw.length % n ≠ 0 := not_not.2 (Nat.mod_eq_zero_of_dvd hraw)
  rw [unmarshalCompactNodeInfosBencode, h.bytes]
  simp only [if_neg hmod]
  exact hread

end

/-! ## All codecs -/

/-- The encoders and decoders are inverse to each other on what both can express. -/
structure CodecsInverse {ε : Type} (lib : BencodeLib ε) : Prop where
  nodes4 : ∀ cnis : List CompactNodeInfo,
    (∀ cni ∈ cnis, cni.id.length = 20 ∧ ∃ bytes, cni.addr.addr = .v4 bytes) →
    CompactNodeInfos4.unmarshalBencode lib (CompactNodeInfos4.marshalBencode lib cnis) = .ok cnis
  nodes6 : ∀ cnis : List CompactNodeInfo,
    (∀ cni ∈ cnis, cni.id.length = 20 ∧
      ∃ bytes, cni.addr.addr = .v6 bytes [] ∧ is4In6 bytes = false) →
    CompactNodeInfos6.unmarshalBencode lib (CompactNodeInfos6.marshalBencode lib cnis) = .ok cnis
  peers : ∀ cps : List CompactPeer, (∀ cp ∈ cps, cp.addr.addr.Plain) →
    CompactPeers.unmarshalBencode lib (CompactPeers.marshalBencode lib cps) = .ok cps
  errors : ∀ e : Error, Error.unmarshalBencode lib (e.marshalBencode lib) = .ok e
  accepts4 : ∀ b, (∃ cnis, CompactNodeInfos4.unmarshalBencode lib b = .ok cnis) ↔
    ∃ raw, lib.unmarshalBytes b = .ok raw ∧ 26 ∣ raw.length
  accepts6 : ∀ b, (∃ cnis, CompactNodeInfos6.unmarshalBencode lib b = .ok cnis) ↔
    ∃ raw, lib.unmarshalBytes b = .ok raw ∧ 38 ∣ raw.length
  exact4 : ∀ raw : Bytes, 26 ∣ raw.length →
    ∃ cnis, CompactNodeInfos4.unmarshalBencode lib (lib.marshal (.str raw)) = .ok cnis ∧
      CompactNodeInfos4.marshalBencode lib cnis = lib.marshal (.str raw)
  exact6 : ∀ raw : Bytes, 38 ∣ raw.length →
    (∀ r ∈ split 38 raw, mapped (CompactNodeInfo.ipPart r) = false) →
    ∃ cnis, CompactNodeInfos6.unmarshalBencode lib (lib.marshal (.str raw)) = .ok cnis ∧
      CompactNodeInfos6.marshalBencode lib cnis = lib.marshal (.str raw)

theorem codecs_inverse {ε : Type} {lib : BencodeLib ε} (h : lib.Faithful) : CodecsInverse lib where
  nodes4 cnis hcnis :=
    nodes_roundtrip h (by decide) (Nodes4.plain hcnis) (Nodes4.length_marshalBinary hcnis)
  nodes6 cnis hcnis :=
    nodes_roundtrip h (by decide) (Nodes6.plain hcnis) (Nodes6.length_marshalBinary hcnis)
  peers cps hcps := by
    rw [CompactPeers.unmarshalBencode, CompactPeers.marshalBencode, h.list]
    exact mapM_write fun cp hcp => CompactPeer.unmarshalBinary_marshalBinary (hcps cp hcp)
  errors e := by
    obtain ⟨v, hv, heq⟩ := h.any e.code e.message
    rw [Error.unmarshalBencode, Error.marshalBencode, heq]
    rcases hv with rfl | rfl <;> rfl
  accepts4 b := nodes_accepts (.inl rfl) b
  accepts6 b := nodes_accepts (.inr rfl) b
  exact4 raw hraw := by
    refine nodes_exact h (.inl rfl) hraw ?_
    -- an address of four bytes is no IPv6 address
    intro r hr
    have hlen := length_of_mem_split hr
    have hip : (CompactNodeInfo.ipPart r).length ≠ 16 := by
      rw [CompactNodeInfo.ipPart, List.length_take]
      omega
    simp [mapped, hip]
  exact6 raw hraw hmapped := nodes_exact h (.inr rfl) hraw hmapped

/-! ## A library -/

mutual

/-- A value as the library stores it in an `any`. -/
def anyOf : Bencode.Value → BencodeAny
  | .int n =>
    if Int64.minValue.toInt ≤ n ∧ n ≤ Int64.maxValue.toInt then .int64 (.ofInt n) else .other
  | .str s => .string s
  | .list vs => .list (anysOf vs)
  | .dict _ => .other

def anysOf : List Bencode.Value → List BencodeAny
  | [] => []
  | v :: vs => anyOf v :: anysOf vs

end

def stringOf : Bencode.Value → Except Unit Bytes
  | .str s => .ok s
  | _ => .error ()

/-- The library over the texts of `Bencode.encode`. -/
def bencodeLib : BencodeLib Unit where
  marshal := Bencode.encode
  unmarshalBytes b :=
    match Bencode.decode b with
    | some v => stringOf v
    | none => .error ()
  unmarshalList b :=
    match Bencode.decode b with
    | some (.list vs) => vs.mapM stringOf
    | _ => .error ()
  unmarshalAny b :=
    match Bencode.decode b with
    | some v => .ok (anyOf v)
    | none => .error ()

theorem bencodeLib_faithful : bencodeLib.Faithful where
  empty := by
    change Bencode.encode (.str []) = _
    rw [Bencode.encode]
    decide
  bytes s := by
    simp only [bencodeLib, Bencode.decode_encode, stringOf]
  list l := by
    simp only [bencodeLib, Bencode.decode_encode]
    induction l with
    | nil => rfl
    | cons s l ih =>
      rw [List.map_cons, List.mapM_cons, ih]
      rfl
  any n s := by
    have hlo := Int64.minValue_le_toInt n
    have hhi := Int64.toInt_le n
    refine ⟨.string s, .inl rfl, ?_⟩
    simp only [bencodeLib, Bencode.decode_encode, anyOf, anysOf]
    rw [if_pos ⟨hlo, hhi⟩, Int64.ofInt_toInt]

theorem bencodeLib_codecs_inverse : CodecsInverse bencodeLib := codecs_inverse bencodeLib_faithful

end DhtClient
