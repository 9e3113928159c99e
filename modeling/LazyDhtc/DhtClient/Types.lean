-- SUMMARY: Values exchanged between the DHT client's parts: addresses, search results and torrent metadata.
import LazyDhtc.Lib.Bytes

/-!
# Client types

Strings of the source are byte strings here: nothing in the client requires them
to be UTF-8. A `time.Time` is an `Int`, its number of nanoseconds since some fixed
instant.
-/

namespace DhtClient

/-- A `time.Duration` of `n` seconds, in nanoseconds. -/
def seconds (n : Int) : Int := n * 1000000000

/-- A `netip.Addr`: the zero value, an IPv4 address, or an IPv6 address with a zone. -/
inductive Addr where
  | invalid
  | v4 (bytes : Vector UInt8 4)
  | v6 (bytes : Vector UInt8 16) (zone : Bytes)
deriving DecidableEq

def Addr.isValid : Addr → Bool
  | .invalid => false
  | _ => true

def Addr.is4 : Addr → Bool
  | .v4 _ => true
  | _ => false

/-- A `netip.AddrPort`. -/
structure AddrPort where
  addr : Addr
  port : UInt16
deriving DecidableEq

def AddrPort.isValid (a : AddrPort) : Bool := a.addr.isValid

structure File where
  size : Int64
  path : Bytes
deriving DecidableEq

/-- What a finished download hands on. -/
structure Metadata where
  infoHash : Bytes
  family : Int64
  name : Bytes
  totalSize : UInt64
  discoveredOn : Int64
  files : List File
deriving DecidableEq

/-- The interface `Result`: peers found for an info hash, and the address family
    of the network they were found on. -/
structure Result where
  infoHash : Bytes
  peerAddrs : List AddrPort
  family : Int64
deriving DecidableEq

end DhtClient
