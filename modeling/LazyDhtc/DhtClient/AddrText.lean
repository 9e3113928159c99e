-- SUMMARY: Addresses with a port as text, and which address a program reads that gets the text through JSON.
import LazyDhtc.DhtClient.Util
import LazyDhtc.Lib.IpText

/-!
# Addresses as text

`netip.AddrPort.String` and `netip.ParseAddrPort`. An IPv6 address is written in brackets
and may have a zone, which is any string; all other parts of the text are ASCII.
-/

namespace DhtClient

open Json Hex IpText

/-! ## Formatting -/

/-- `netip.Addr.Is4In6`. -/
def is4In6 (bytes : Vector UInt8 16) : Bool :=
  bytes.toList.take 12 = List.replicate 10 0 ++ [0xff, 0xff]

def zoneSuffix (zone : Bytes) : Bytes := if zone = [] then [] else 0x25 :: zone

/-- An IPv6 address without its zone. -/
def ip6Text (bytes : Vector UInt8 16) : Bytes :=
  if is4In6 bytes then ascii "::ffff:" ++ appendTo4 (bytes.toList.drop 12)
  else appendTo6 (groupsOf bytes.toList)

/-- `netip.AddrPort.String`. -/
def AddrPort.string (a : AddrPort) : Bytes :=
  match a.addr with
  | .invalid => ascii "invalid AddrPort"
  | .v4 bytes => appendTo4 bytes.toList ++ 0x3A :: decimal a.port.toNat
  | .v6 bytes zone =>
    0x5B :: (ip6Text bytes ++ zoneSuffix zone ++ [0x5D]) ++ 0x3A :: decimal a.port.toNat

/-! ## Parsing -/

/-- `netip.Addr.Zone`. -/
def Addr.zone : Addr → Bytes
  | .v6 _ zone => zone
  | _ => []

/-- `netip.Addr.WithZone`. -/
def Addr.withZone : Addr → Bytes → Addr
  | .v6 bytes _, zone => .v6 bytes zone
  | a, _ => a

def parseIPv4 (s : Bytes) : Option Addr := (parseIPv4Fields [] 0 0 s).bind addrFromSlice

/-- `parseIPv6`: what follows the first percent sign is the zone, which must not be empty. -/
def parseIPv6Zone (s : Bytes) : Option Addr :=
  match s.dropWhile (· ≠ 0x25) with
  | [] => (parseIPv6 s).bind addrFromSlice
  | _ :: zone =>
    if zone = [] then none
    else ((parseIPv6 (s.takeWhile (· ≠ 0x25))).bind addrFromSlice).map fun ip => ip.withZone zone

/-- `netip.ParseAddr`: the first dot, colon or percent sign decides. -/
def parseAddr (s : Bytes) : Option Addr :=
  match s.find? fun c => c = 0x2E ∨ c = 0x3A ∨ c = 0x25 with
  | some 0x2E => parseIPv4 s
  | some 0x3A => parseIPv6Zone s
  | _ => none

/-- The text before and after the last `c`. -/
def splitLast (c : UInt8) : Bytes → Option (Bytes × Bytes)
  | [] => none
  | b :: s =>
    match splitLast c s with
    | some (before, after) => some (b :: before, after)
    | none => if b = c then some ([], s) else none

/-- The address of `splitAddrPort`, and whether it was in brackets. -/
def unbracket (ip : Bytes) : Option (Bytes × Bool) :=
  if ip.head? = some 0x5B then
    if ip.length < 2 ∨ ip.getLast? ≠ some 0x5D then none else some ((ip.drop 1).dropLast, true)
  else some (ip, false)

/-- `netip.ParseAddrPort`. -/
def parseAddrPort (s : Bytes) : Option AddrPort :=
  match splitLast 0x3A s with
  | none => none
  | some (ip, port) =>
    if ip = [] ∨ port = [] then none
    else
      match unbracket ip, readNat port with
      | some (ip, v6), some port =>
        if 65535 < port then none
        else
          match parseAddr ip with
          | none => none
          -- brackets are for IPv6 addresses, and these need them
          | some addr => if v6 = addr.is4 then none else some ⟨addr, .ofNat port⟩
      | _, _ => none

/-! ## Round trip -/

theorem addrFromSlice_v4 (bytes : Vector UInt8 4) :
    addrFromSlice bytes.toList = some (.v4 bytes) := by
  simp [addrFromSlice, Vector.toList]

theorem addrFromSlice_v6 (bytes : Vector UInt8 16) :
    addrFromSlice bytes.toList = some (.v6 bytes []) := by
  simp [addrFromSlice, Vector.toList]

theorem splitLast_append {c : UInt8} (s : Bytes) {t : Bytes} (ht : c ∉ t) :
    splitLast c (s ++ c :: t) = some (s, t) := by
  have hnone : ∀ t : Bytes, c ∉ t → splitLast c t = none := by
    intro t ht
    induction t with
    | nil => rfl
    | cons b t ih =>
      simp only [List.mem_cons, not_or] at ht
      simp [splitLast, ih ht.2, Ne.symm ht.1]
  induction s with
  | nil => simp [splitLast, hnone t ht]
  | cons b s ih => simp [splitLast, ih]

theorem colon_notMem_decimal (n : Nat) : (0x3A : UInt8) ∉ decimal n :=
  fun h => absurd (decimal_digits n _ h) (by decide)

/-- The only kind of character that `p` asks for is found. -/
theorem find_only {p : UInt8 → Bool} {s : Bytes} {c : UInt8} (hmem : c ∈ s) (hc : p c = true)
    (honly : ∀ b ∈ s, p b = true → b = c) : s.find? p = some c := by
  cases hfound : s.find? p with
  | none => exact absurd hc (List.find?_eq_none.1 hfound c hmem)
  | some b => rw [honly b (List.mem_of_find?_eq_some hfound) (List.find?_some hfound)]

theorem toList_v4 (bytes : Vector UInt8 4) : ∃ b b' bs, bytes.toList = b :: b' :: bs := by
  have hlen : bytes.toList.length = 4 := by simp
  match bytes.toList, hlen with
  | b :: b' :: bs, _ => exact ⟨b, b', bs, rfl⟩

theorem parseAddr_v4 (bytes : Vector UInt8 4) :
    parseAddr (appendTo4 bytes.toList) = some (.v4 bytes) := by
  have hlen : bytes.toList.length = 4 := by simp
  obtain ⟨b, b', bs, heq⟩ := toList_v4 bytes
  have hparse := parseIPv4Fields_appendTo4 [] (by simp [heq] : bytes.toList ≠ [])
    (by rw [hlen, List.length_nil])
  have hfind : (appendTo4 bytes.toList).find? (fun c => c = 0x2E ∨ c = 0x3A ∨ c = 0x25) =
      some 0x2E := by
    refine find_only (by rw [heq, appendTo4_cons]; simp) (by decide) ?_
    intro c hc hspecial
    rcases appendTo4_digits _ c hc with hdigit | hdot
    · simp only [decide_eq_true_eq] at hspecial
      rcases hspecial with rfl | rfl | rfl <;> revert hdigit <;> decide
    · exact hdot
  rw [parseAddr, hfind]
  simp only
  rw [parseIPv4, hparse, List.nil_append, Option.bind_some, addrFromSlice_v4]

theorem isDigit_ascii {c : UInt8} (h : isDigit c = true) : c < 0x80 := by
  simp only [isDigit, Bool.and_eq_true, decide_eq_true_eq] at h
  exact UInt8.lt_of_le_of_lt h.2 (by decide)

/-- The text of an IPv6 address starts like one and has no percent sign. -/
theorem ip6Text_chars (bytes : Vector UInt8 16) :
    (ip6Text bytes).find? (fun c => c = 0x2E ∨ c = 0x3A ∨ c = 0x25) = some 0x3A ∧
      (∀ c ∈ ip6Text bytes, c ≠ 0x25) ∧ ∀ c ∈ ip6Text bytes, c < 0x80 := by
  unfold ip6Text
  split_ifs with hmapped
  · have hdigits : ∀ c ∈ ascii "::ffff:" ++ appendTo4 (bytes.toList.drop 12),
        c ∈ ascii "::ffff:" ∨ isDigit c = true ∨ c = 0x2E := by
      intro c hc
      exact (List.mem_append.1 hc).imp_right (appendTo4_digits _ c)
    have hmark : (ascii "::ffff:").all (fun c => c ≠ 0x25 ∧ c < 0x80) = true := by decide
    have hchar : ∀ c ∈ ascii "::ffff:" ++ appendTo4 (bytes.toList.drop 12), c ≠ 0x25 ∧ c < 0x80 := by
      intro c hc
      rcases hdigits c hc with hc | hdigit | rfl
      · exact of_decide_eq_true (List.all_eq_true.1 hmark c hc)
      · refine ⟨?_, isDigit_ascii hdigit⟩
        rintro rfl
        exact absurd hdigit (by decide)
      · decide
    refine ⟨?_, fun c hc => (hchar c hc).1, fun c hc => (hchar c hc).2⟩
    rw [List.find?_append]
    rfl
  · have hdigits := appendTo6_digits (groupsOf_le bytes.toList)
    have hcolon : 0x3A ∈ appendTo6 (groupsOf bytes.toList) :=
      colon_mem_appendTo6 (by rw [length_groupsOf]; simp)
    refine ⟨find_only hcolon (by decide) ?_, ?_, ?_⟩
    · intro c hc hspecial
      rcases hdigits c hc with ⟨d, hd, rfl⟩ | hcolon
      · have hne := hexDigit_ne d hd
        simp [hne] at hspecial
      · exact hcolon
    · intro c hc
      rcases hdigits c hc with ⟨d, hd, rfl⟩ | rfl
      · exact (hexDigit_ne d hd).1
      · decide
    · intro c hc
      rcases hdigits c hc with ⟨d, hd, rfl⟩ | rfl
      · exact hexDigit_ascii d hd
      · decide

theorem parseIPv6_ip6Text (bytes : Vector UInt8 16) :
    parseIPv6 (ip6Text bytes) = some bytes.toList := by
  unfold ip6Text
  split_ifs with hmapped
  · have hlen : (bytes.toList.drop 12).length = 4 := by simp
    have hsplit := List.take_append_drop 12 bytes.toList
    rw [parseIPv6_mapped hlen, ← of_decide_eq_true hmapped, hsplit]
  · exact parseIPv6_appendTo6 (by simp)

theorem parseAddr_v6 (bytes : Vector UInt8 16) (zone : Bytes) :
    parseAddr (ip6Text bytes ++ zoneSuffix zone) = some (.v6 bytes zone) := by
  obtain ⟨hfind, hpercent, -⟩ := ip6Text_chars bytes
  have hpercent' : ∀ c ∈ ip6Text bytes, decide (c ≠ 0x25) = true := by simpa using hpercent
  rw [parseAddr, List.find?_append, hfind]
  simp only [Option.some_or]
  rw [parseIPv6Zone, List.dropWhile_append_of_pos hpercent', List.takeWhile_append_of_pos hpercent']
  unfold zoneSuffix
  split_ifs with hzone
  · subst hzone
    simp [parseIPv6_ip6Text, addrFromSlice_v6]
  · simp [hzone, parseIPv6_ip6Text, addrFromSlice_v6, Addr.withZone]

/-- An address is read back from its text. -/
theorem parseAddrPort_string (a : AddrPort) :
    parseAddrPort a.string = if a.isValid then some a else none := by
  obtain ⟨addr, port⟩ := a
  have hport : ¬ 65535 < port.toNat := Nat.not_lt.2 (Nat.le_of_lt_succ port.toNat_lt)
  have hread := readNat_decimal port.toNat
  have hne := decimal_ne_nil port.toNat
  cases addr with
  | invalid =>
    have htext : parseAddrPort (ascii "invalid AddrPort") = none := by decide
    exact htext
  | v4 bytes =>
    have hsplit := splitLast_append (appendTo4 bytes.toList) (colon_notMem_decimal port.toNat)
    obtain ⟨b, b', bs, heq⟩ := toList_v4 bytes
    obtain ⟨d, s, hd, hhead⟩ := appendTo4_head b b' bs
    have hdigit : unbracket (appendTo4 bytes.toList) = some (appendTo4 bytes.toList, false) := by
      simp [unbracket, heq, hhead, (hexDigit_ne d hd).2.2.2]
    have hnil : appendTo4 bytes.toList ≠ [] := by
      rw [heq, hhead]
      exact List.cons_ne_nil _ _
    simp only [parseAddrPort, AddrPort.string, hsplit, hnil, hne, or_self, if_false, hdigit, hread,
      hport, parseAddr_v4, Addr.is4]
    simp [AddrPort.isValid, Addr.isValid]
  | v6 bytes zone =>
    have hsplit := splitLast_append (0x5B :: (ip6Text bytes ++ zoneSuffix zone ++ [0x5D]))
      (colon_notMem_decimal port.toNat)
    have hinner : unbracket (0x5B :: (ip6Text bytes ++ zoneSuffix zone ++ [0x5D])) =
        some (ip6Text bytes ++ zoneSuffix zone, true) := by
      have hlast : (0x5B :: (ip6Text bytes ++ zoneSuffix zone ++ [0x5D])).getLast? = some 0x5D := by
        rw [← List.cons_append, List.getLast?_concat]
      simp only [unbracket, hlast]
      simp
    simp only [parseAddrPort, AddrPort.string, hsplit, hinner, hne, reduceCtorEq, or_self, if_false,
      hread, hport, parseAddr_v6, Addr.is4]
    simp [AddrPort.isValid, Addr.isValid]

/-! ## Through JSON -/

/-- An address after its text was in a JSON document, which coerces the zone to UTF-8. -/
def AddrPort.onWire (a : AddrPort) : AddrPort :=
  match a.addr with
  | .v6 bytes zone => ⟨.v6 bytes (Utf8.coerce zone), a.port⟩
  | _ => a

theorem decimal_ascii (n : Nat) : ∀ c ∈ decimal n, c < 0x80 :=
  fun c hc => isDigit_ascii (decimal_digits n c hc)

theorem coerce_zoneSuffix (zone : Bytes) :
    Utf8.coerce (zoneSuffix zone) = zoneSuffix (Utf8.coerce zone) := by
  unfold zoneSuffix
  by_cases hzone : zone = []
  · subst hzone
    rfl
  · have hne : Utf8.coerce zone ≠ [] := by
      intro hnil
      have hlen := Utf8.length_le_coerce zone
      rw [hnil, List.length_nil, Nat.le_zero] at hlen
      exact hzone (List.length_eq_zero_iff.1 hlen)
    rw [if_neg hzone, if_neg hne]
    exact Utf8.coerce_ascii_append (List.forall_mem_singleton.2 (by decide)) zone

/-- Only the zone of an address is changed on the way. -/
theorem coerce_string (a : AddrPort) : Utf8.coerce a.string = a.onWire.string := by
  obtain ⟨addr, port⟩ := a
  have hport : ∀ c ∈ 0x3A :: decimal port.toNat, c < 0x80 := by
    intro c hc
    rcases List.mem_cons.1 hc with rfl | hc
    · decide
    · exact decimal_ascii _ c hc
  cases addr with
  | invalid =>
    have htext : Utf8.coerce (ascii "invalid AddrPort") = ascii "invalid AddrPort" := by decide
    exact htext
  | v4 bytes =>
    refine Utf8.coerce_ascii ?_
    intro c hc
    rcases List.mem_append.1 hc with hc | hc
    · rcases appendTo4_digits _ c hc with hdigit | rfl
      · exact isDigit_ascii hdigit
      · decide
    · exact hport c hc
  | v6 bytes zone =>
    obtain ⟨-, -, hascii⟩ := ip6Text_chars bytes
    have hsplit : ∀ zone, AddrPort.string ⟨.v6 bytes zone, port⟩ =
        (0x5B :: ip6Text bytes) ++ (zoneSuffix zone ++ 0x5D :: 0x3A :: decimal port.toNat) := by
      intro zone
      simp [AddrPort.string]
    have hstart : ∀ c ∈ 0x5B :: ip6Text bytes, c < 0x80 := by
      intro c hc
      rcases List.mem_cons.1 hc with rfl | hc
      · decide
      · exact hascii c hc
    have hend : ∀ c ∈ 0x5D :: 0x3A :: decimal port.toNat, c < 0x80 := by
      intro c hc
      rcases List.mem_cons.1 hc with rfl | hc
      · decide
      · exact hport c hc
    have hbracket : ∀ c, (0x5D :: 0x3A :: decimal port.toNat).head? = some c → c < 0x80 := by
      rintro c ⟨⟩
      decide
    rw [AddrPort.onWire, hsplit, hsplit, Utf8.coerce_ascii_append hstart,
      Utf8.coerce_append_ascii _ hbracket, coerce_zoneSuffix, Utf8.coerce_ascii hend]

/-- What is read from a JSON document that an address was written to. -/
theorem parseAddrPort_coerce (a : AddrPort) :
    parseAddrPort (Utf8.coerce a.string) = if a.isValid then some a.onWire else none := by
  have hvalid : a.onWire.isValid = a.isValid := by
    obtain ⟨addr, port⟩ := a
    cases addr <;> rfl
  rw [coerce_string, parseAddrPort_string, hvalid]

theorem onWire_eq_self_iff {a : AddrPort} : a.onWire = a ↔ Utf8.valid a.addr.zone = true := by
  obtain ⟨addr, port⟩ := a
  cases addr with
  | invalid => exact iff_of_true rfl rfl
  | v4 bytes => exact iff_of_true rfl rfl
  | v6 bytes zone => simp [AddrPort.onWire, Addr.zone, Utf8.coerce_eq_self_iff]

end DhtClient
