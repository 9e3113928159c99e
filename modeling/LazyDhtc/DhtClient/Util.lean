-- SUMMARY: Compact peer lists: the decoders of the peer strings of DHT and PEX messages.
import LazyDhtc.DhtClient.Types

/-!
# Peer strings
-/

namespace DhtClient

/-- `netip.AddrFromSlice`. -/
def addrFromSlice (slice : Bytes) : Option Addr :=
  if h : slice.length = 4 then some (.v4 ⟨slice.toArray, h⟩)
  else if h : slice.length = 16 then some (.v6 ⟨slice.toArray, h⟩ [])
  else none

/-- `netip.Addr.Unmap`: an IPv4-mapped IPv6 address as the IPv4 address. -/
def Addr.unmap : Addr → Addr
  | .v6 bytes zone =>
    if bytes.toList.take 12 = List.replicate 10 0 ++ [0xff, 0xff] then
      .v4 #v[bytes[12], bytes[13], bytes[14], bytes[15]]
    else .v6 bytes zone
  | a => a

/-- `binary.BigEndian.Uint16`. -/
def uint16OfBE (b : Bytes) : UInt16 := .ofNat (beNat (b.take 2))

/-- The groups of `n` bytes that a loop over `s` in steps of `n` visits. -/
def groups (n : Nat) (s : Bytes) : List Bytes :=
  (List.range (s.length / n)).map fun k => (s.drop (k * n)).take n

def parsePeers (s : Bytes) : List AddrPort :=
  (groups 6 s).filterMap fun g =>
    (addrFromSlice (g.take 4)).map fun ip => ⟨ip.unmap, uint16OfBE (g.drop 4)⟩

def parsePeers6 (s : Bytes) : List AddrPort :=
  (groups 18 s).filterMap fun g =>
    (addrFromSlice (g.take 16)).map fun ip => ⟨ip, uint16OfBE (g.drop 16)⟩

end DhtClient
