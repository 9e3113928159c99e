-- SUMMARY: The peer strings of PEX messages against the values of the DHT: for which strings both decoders find the same peers.
import LazyDhtc.DhtClient.Codec
import LazyDhtc.DhtClient.Sink

/-!
# Peer strings and values

A peer reaches the client as a value of a DHT response or inside the string of a PEX
message, six or eighteen bytes each time, and two decoders read it. Only one of them turns
an IPv4-mapped IPv6 address into the IPv4 address.
-/

namespace DhtClient

open Records

/-- The network that `connect` dials. -/
def dialNetwork (peerAddr : AddrPort) : Bytes :=
  if peerAddr.addr.is4 then ascii "tcp4" else ascii "tcp6"

/-! ## Groups -/

theorem groups_eq_split (n : Nat) (s : Bytes) : groups n s = split n s := by
  refine List.map_congr_left fun k _ => ?_
  rw [Blocks.block, Nat.mul_comm]

theorem length_of_mem_groups {n : Nat} {s g : Bytes} (h : g ∈ groups n s) : g.length = n := by
  rw [groups_eq_split] at h
  exact length_of_mem_split h

theorem groups_self {n : Nat} (hn : 0 < n) {g : Bytes} (h : g.length = n) : groups n g = [g] := by
  have hsplit : split n [g].flatten = [g] := split_flatten hn (by simpa using h)
  rwa [List.flatten_singleton, ← groups_eq_split] at hsplit

/-! ## One group -/

/-- The peer of a group, an address of `n` bytes and a port. -/
def groupPeer (n : Nat) (g : Bytes) : Option AddrPort :=
  (addrFromSlice (g.take n)).map fun ip => ⟨ip, uint16OfBE (g.drop n)⟩

section

variable {n : Nat} {g : Bytes} {peer : AddrPort}

theorem groupPeer_eq_some (hn : n = 4 ∨ n = 16) (hlen : g.length = n + 2) :
    ∃ peer, groupPeer n g = some peer := by
  have htake : (g.take n).length = n := by
    rw [List.length_take]
    omega
  obtain ⟨ip, hip⟩ := addrFromSlice_isSome (by rw [htake]; exact hn)
  exact ⟨_, by rw [groupPeer, hip]; rfl⟩

theorem unmarshalBinary_group {ε : Type} (hn : n = 4 ∨ n = 16) (hlen : g.length = n + 2)
    (hpeer : groupPeer n g = some peer) :
    CompactPeer.unmarshalBinary g =
      (.ok ⟨⟨peer.addr.unmap, peer.port⟩⟩ : Except (CodecError ε) _) := by
  obtain ⟨ip, hip, rfl⟩ := Option.map_eq_some_iff.1 hpeer
  rw [CompactPeer.unmarshalBinary, if_pos (by omega), hlen, Nat.add_sub_cancel, hip]

/-- An IPv6 address is kept unless it is IPv4-mapped. -/
theorem groupPeer_unmap_iff (hlen : g.length = 18) (hpeer : groupPeer 16 g = some peer) :
    peer.addr.unmap = peer.addr ↔ mapped (g.take 16) = false := by
  have htake : (g.take 16).length = 16 := by
    rw [List.length_take]
    omega
  obtain ⟨ip, hip, rfl⟩ := Option.map_eq_some_iff.1 hpeer
  rw [addrFromSlice, dif_neg (by rw [htake]; decide), dif_pos htake] at hip
  cases hip
  simp only [Addr.unmap, mapped, htake, Vector.toList]
  split_ifs with hmapped <;> simpa using hmapped

end

/-! ## Both decoders -/

/-- A value of the DHT and a peer of a PEX message that are one peer to the client. -/
structure OnePeer (value peer : AddrPort) : Prop where
  same : value = peer
  deduplicated : ∀ existing,
    uniqueValidPeers [value, peer] existing = uniqueValidPeers [value] existing
  network : dialNetwork value = dialNetwork peer

/-- Both decoders find the same peers in the groups of `s`. -/
structure DecodersAgree (ε : Type) (s : Bytes) : Prop where
  peers : (groups 6 s).mapM CompactPeer.unmarshalBinary =
    (.ok ((parsePeers s).map .mk) : Except (CodecError ε) _)
  peers6 : (groups 18 s).mapM CompactPeer.unmarshalBinary =
    (.ok ((parsePeers6 s).map .mk) : Except (CodecError ε) _)
  onePeer : ∀ g ∈ groups 6 s, ∃ value peer,
    CompactPeer.unmarshalBinary g = (.ok ⟨value⟩ : Except (CodecError ε) _) ∧
      parsePeers g = [peer] ∧ OnePeer value peer
  onePeer6 : ∀ g ∈ groups 18 s, ∃ value peer,
    CompactPeer.unmarshalBinary g = (.ok ⟨value⟩ : Except (CodecError ε) _) ∧
      parsePeers6 g = [peer] ∧ OnePeer value peer

theorem OnePeer.refl (peer : AddrPort) : OnePeer peer peer where
  same := rfl
  deduplicated existing := by
    simp only [uniqueValidPeers, uniqueValidPeersFrom]
    split_ifs with hvalid hexisting hnew hseen
    · rfl
    · rfl
    · rfl
    · rfl
    · exact absurd ((AList.mem_insert _).2 (.inl rfl)) hseen
  network := rfl

section

variable {ε : Type} {s : Bytes}

theorem parsePeers_eq (s : Bytes) :
    (parsePeers s).map CompactPeer.mk = (groups 6 s).filterMap fun g =>
      (groupPeer 4 g).map fun peer => ⟨⟨peer.addr.unmap, peer.port⟩⟩ := by
  rw [parsePeers, List.map_filterMap]
  simp only [groupPeer, Option.map_map]
  rfl

theorem parsePeers6_eq (s : Bytes) :
    (parsePeers6 s).map CompactPeer.mk = (groups 18 s).filterMap fun g =>
      (groupPeer 16 g).map CompactPeer.mk := by
  rw [parsePeers6, List.map_filterMap]
  rfl

theorem unmarshalBinary_groups (s : Bytes) :
    (groups 6 s).mapM CompactPeer.unmarshalBinary =
      (.ok ((parsePeers s).map .mk) : Except (CodecError ε) _) := by
  have hpeer : ∀ g ∈ groups 6 s, ∃ peer, groupPeer 4 g = some peer := fun g hg =>
    groupPeer_eq_some (.inl rfl) (length_of_mem_groups hg)
  rw [parsePeers_eq, mapM_eq_filterMap_iff]
  · intro g hg x hx
    obtain ⟨peer, hpeer, rfl⟩ := Option.map_eq_some_iff.1 hx
    exact unmarshalBinary_group (.inl rfl) (length_of_mem_groups hg) hpeer
  · intro g hg
    obtain ⟨peer, hpeer⟩ := hpeer g hg
    exact ⟨_, by rw [hpeer]; rfl⟩

theorem unmarshalBinary_groups6_iff (s : Bytes) :
    (groups 18 s).mapM CompactPeer.unmarshalBinary =
        (.ok ((parsePeers6 s).map .mk) : Except (CodecError ε) _) ↔
      ∀ g ∈ groups 18 s, mapped (g.take 16) = false := by
  have hpeer : ∀ g ∈ groups 18 s, ∃ peer, groupPeer 16 g = some peer := fun g hg =>
    groupPeer_eq_some (.inr rfl) (length_of_mem_groups hg)
  rw [parsePeers6_eq, mapM_eq_filterMap_iff]
  · refine forall₂_congr fun g hg => ?_
    have hlen := length_of_mem_groups hg
    obtain ⟨peer, hpeer⟩ := hpeer g hg
    rw [← groupPeer_unmap_iff hlen hpeer, hpeer, unmarshalBinary_group (.inr rfl) hlen hpeer]
    obtain ⟨addr, port⟩ := peer
    simp
  · intro g hg
    obtain ⟨peer, hpeer⟩ := hpeer g hg
    exact ⟨_, by rw [hpeer]; rfl⟩

/-- Where the decoders agree on the one group of a string, it is one peer to them. -/
theorem onePeer_of_group {n : Nat} (hn : n = 6 ∨ n = 18) {g : Bytes} (hlen : g.length = n)
    {parse : Bytes → List AddrPort}
    (h : (groups n g).mapM CompactPeer.unmarshalBinary =
      (.ok ((parse g).map .mk) : Except (CodecError ε) _)) :
    ∃ value peer, CompactPeer.unmarshalBinary g = (.ok ⟨value⟩ : Except (CodecError ε) _) ∧
      parse g = [peer] ∧ OnePeer value peer := by
  rw [groups_self (by omega) hlen, List.mapM_cons] at h
  cases hread : CompactPeer.unmarshalBinary (ε := ε) g with
  | error err =>
    rw [hread] at h
    cases h
  | ok cp =>
    rw [hread] at h
    have hparse : [cp] = (parse g).map .mk := Except.ok.inj h
    obtain ⟨peer, hpeer, rfl⟩ := List.map_eq_singleton_iff.1 hparse.symm
    exact ⟨peer, peer, rfl, hpeer, OnePeer.refl peer⟩

/-- The decoders agree on the strings in which no group of eighteen bytes has an
    IPv4-mapped address. -/
theorem decodersAgree_iff (s : Bytes) :
    DecodersAgree ε s ↔ ∀ g ∈ groups 18 s, mapped (g.take 16) = false := by
  constructor
  · intro h
    exact (unmarshalBinary_groups6_iff s).1 h.peers6
  · intro h
    refine ⟨unmarshalBinary_groups s, (unmarshalBinary_groups6_iff s).2 h, ?_, ?_⟩
    · intro g hg
      exact onePeer_of_group (.inl rfl) (length_of_mem_groups hg) (unmarshalBinary_groups g)
    · intro g hg
      have hlen := length_of_mem_groups hg
      refine onePeer_of_group (.inr rfl) hlen ((unmarshalBinary_groups6_iff g).2 ?_)
      rw [groups_self (by decide) hlen]
      simpa using h g hg

end

/-- `::ffff:192.0.2.7` with port 6881, as a peer sends it. -/
def mappedPeer : Bytes :=
  [0, 0, 0, 0, 0, 0, 0, 0, 0, 0, 0xff, 0xff, 192, 0, 2, 7, 0x1a, 0xe1]

/-- An IPv4-mapped peer is an IPv4 peer among the values of the DHT and another, IPv6 peer
    in a PEX message. -/
theorem mappedPeer_is_two_peers :
    (groups 18 mappedPeer).mapM CompactPeer.unmarshalBinary =
        (.ok [⟨⟨.v4 #v[192, 0, 2, 7], 6881⟩⟩] : Except (CodecError Unit) _) ∧
      parsePeers6 mappedPeer =
        [⟨.v6 #v[0, 0, 0, 0, 0, 0, 0, 0, 0, 0, 0xff, 0xff, 192, 0, 2, 7] [], 6881⟩] ∧
      (uniqueValidPeers (⟨.v4 #v[192, 0, 2, 7], 6881⟩ :: parsePeers6 mappedPeer) ∅).length = 2 ∧
      (parsePeers6 mappedPeer).map dialNetwork = [ascii "tcp6"] ∧
      dialNetwork ⟨.v4 #v[192, 0, 2, 7], 6881⟩ = ascii "tcp4" ∧
      ¬ DecodersAgree Unit mappedPeer := by
  have hvalues : (groups 18 mappedPeer).mapM CompactPeer.unmarshalBinary =
      (.ok [⟨⟨.v4 #v[192, 0, 2, 7], 6881⟩⟩] : Except (CodecError Unit) _) := by rfl
  refine ⟨hvalues, by decide +kernel, by decide +kernel, by decide +kernel, by decide +kernel, ?_⟩
  intro h
  have hpeers := h.peers6
  rw [hvalues] at hpeers
  exact absurd (Except.ok.inj hpeers) (by decide +kernel)

end DhtClient
