-- SUMMARY: The decoder of node lists that guesses the size of a node, and the lists that it reads back.
import LazyDhtc.DhtClient.Codec

/-!
# Node lists of unknown family

The decoders of `nodes` and `nodes6` are told how long a node is. The one here takes the
length of the whole string for a hint. A string of 494 bytes is as well thirteen nodes of 38
bytes as nineteen of 26, and it is always read as the latter.
-/

namespace DhtClient

open Records

/-- The errors of the decoder. -/
inductive NodeInfosError (ε : Type) where
  | node (err : CodecError ε)
  /-- `compact node is neither a multiple of 26 nor 38` -/
  | nodeSize

section

variable {ε : Type}

/-- The loop over the nodes of one size. -/
def unmarshalNodes (nodeSize : Nat) (b : Bytes) :
    Except (NodeInfosError ε) (List CompactNodeInfo) :=
  (readAll CompactNodeInfo.unmarshalBinary nodeSize b).mapError .node

def unmarshalCompactNodeInfos (b : Bytes) : Except (NodeInfosError ε) (List CompactNodeInfo) :=
  if b.length = 0 then .ok []
  else if b.length % 26 = 0 then unmarshalNodes 26 b
  else if b.length % 38 = 0 then unmarshalNodes 38 b
  else .error .nodeSize

def CompactNodeInfos.unmarshalBencode (lib : BencodeLib ε) (b : Bytes) :
    Except (NodeInfosError ε) (List CompactNodeInfo) :=
  match lib.unmarshalBytes b with
  | .error err => .error (.node (.bencode err))
  | .ok bb => unmarshalCompactNodeInfos bb

end

/-! ## Nodes of one size -/

section

variable {ε : Type} {cnis : List CompactNodeInfo}

theorem unmarshalNodes_writeAll {nodeSize : Nat} (hsize : 0 < nodeSize)
    (hplain : ∀ cni ∈ cnis, cni.Plain)
    (hlen : ∀ cni ∈ cnis, cni.marshalBinary.length = nodeSize) :
    unmarshalNodes nodeSize (writeAll CompactNodeInfo.marshalBinary cnis) =
      (.ok cnis : Except (NodeInfosError ε) _) := by
  rw [unmarshalNodes, readAll_writeAll hsize hlen
    fun cni hcni => (hplain cni hcni).unmarshalBinary_marshalBinary]
  rfl

/-- A node for every `nodeSize` bytes. -/
theorem length_unmarshalNodes {nodeSize : Nat} {b : Bytes}
    (h : unmarshalNodes nodeSize b = (.ok cnis : Except (NodeInfosError ε) _)) :
    cnis.length = b.length / nodeSize := by
  unfold unmarshalNodes at h
  cases hread : readAll (ε := CodecError ε) CompactNodeInfo.unmarshalBinary nodeSize b with
  | error err =>
    rw [hread] at h
    cases h
  | ok nodes =>
    rw [hread] at h
    cases h
    exact length_readAll hread

end

/-! ## What is read back -/

section

variable {ε : Type} {cnis : List CompactNodeInfo}

theorem unmarshalCompactNodeInfos_nodes4 (h : Nodes4 cnis) :
    unmarshalCompactNodeInfos (writeAll CompactNodeInfo.marshalBinary cnis) =
      (.ok cnis : Except (NodeInfosError ε) _) := by
  have hlen := length_writeAll h.length_marshalBinary
  unfold unmarshalCompactNodeInfos
  split_ifs with hnil hmod hmod
  · have hcnis : cnis.length = 0 := by omega
    rw [List.length_eq_zero_iff.1 hcnis]
  · exact unmarshalNodes_writeAll (by decide) h.plain h.length_marshalBinary
  all_goals omega

/-- 13 divides the length of an IPv6 list just when 26 divides the length of its string. -/
theorem mod_writeAll_nodes6 (h : Nodes6 cnis) :
    (writeAll CompactNodeInfo.marshalBinary cnis).length % 26 = 0 ↔ 13 ∣ cnis.length := by
  rw [length_writeAll h.length_marshalBinary]
  omega

theorem unmarshalCompactNodeInfos_nodes6 (h : Nodes6 cnis) (hdvd : ¬ 13 ∣ cnis.length) :
    unmarshalCompactNodeInfos (writeAll CompactNodeInfo.marshalBinary cnis) =
      (.ok cnis : Except (NodeInfosError ε) _) := by
  have hlen := length_writeAll h.length_marshalBinary
  rw [← mod_writeAll_nodes6 h] at hdvd
  unfold unmarshalCompactNodeInfos
  split_ifs with hnil hmod
  · omega
  · exact unmarshalNodes_writeAll (by decide) h.plain h.length_marshalBinary
  · omega

/-- Thirteen IPv6 nodes are read as nineteen IPv4 ones. -/
theorem length_unmarshalCompactNodeInfos_nodes6 (h : Nodes6 cnis) (hdvd : 13 ∣ cnis.length)
    {nodes : List CompactNodeInfo}
    (hread : unmarshalCompactNodeInfos (writeAll CompactNodeInfo.marshalBinary cnis) =
      (.ok nodes : Except (NodeInfosError ε) _)) :
    13 * nodes.length = 19 * cnis.length := by
  have hlen := length_writeAll h.length_marshalBinary
  rw [unmarshalCompactNodeInfos, if_pos ((mod_writeAll_nodes6 h).2 hdvd)] at hread
  split_ifs at hread with hnil
  · cases hread
    rw [List.length_nil]
    omega
  · have hnodes := length_unmarshalNodes hread
    omega

/-- What is read back from the encodings of nodes of one family are all lists but the
    non-empty ones of IPv6 nodes whose length is a multiple of thirteen. -/
theorem unmarshalCompactNodeInfos_inverts_iff (h : Nodes4 cnis ∨ Nodes6 cnis) :
    unmarshalCompactNodeInfos (writeAll CompactNodeInfo.marshalBinary cnis) =
      (.ok cnis : Except (NodeInfosError ε) _) ↔ Nodes4 cnis ∨ ¬ 13 ∣ cnis.length := by
  constructor
  · intro hread
    rcases h with h4 | h6
    · exact .inl h4
    · by_cases hdvd : 13 ∣ cnis.length
      · have hlen := length_unmarshalCompactNodeInfos_nodes6 h6 hdvd hread
        have hnil : cnis = [] := List.length_eq_zero_iff.1 (by omega)
        rw [hnil]
        exact .inl (by simp [Nodes4])
      · exact .inr hdvd
  · rintro (h4 | hdvd)
    · exact unmarshalCompactNodeInfos_nodes4 h4
    · rcases h with h4 | h6
      · exact unmarshalCompactNodeInfos_nodes4 h4
      · exact unmarshalCompactNodeInfos_nodes6 h6 hdvd

end

/-- A node at `2001:db8::1`. -/
def node6 : CompactNodeInfo :=
  ⟨List.replicate 20 7,
    ⟨.v6 #v[0x20, 0x01, 0x0d, 0xb8, 0, 0, 0, 0, 0, 0, 0, 0, 0, 0, 0, 1] [], 6881⟩⟩

theorem nodes6_node6 (n : Nat) : Nodes6 (List.replicate n node6) := by
  intro cni hcni
  rw [List.eq_of_mem_replicate hcni]
  exact ⟨rfl, _, rfl, by decide⟩

theorem unmarshalCompactNodeInfos_inverts_iff_two :
    unmarshalCompactNodeInfos
        (writeAll CompactNodeInfo.marshalBinary (List.replicate 2 node6)) =
        (.ok (List.replicate 2 node6) : Except (NodeInfosError Unit) _) ↔
      Nodes4 (List.replicate 2 node6) ∨ ¬ 13 ∣ (List.replicate 2 node6).length :=
  unmarshalCompactNodeInfos_inverts_iff (.inr (nodes6_node6 2))

/-- Thirteen IPv6 nodes are not read back. -/
theorem thirteen_nodes_misread :
    Nodes6 (List.replicate 13 node6) ∧
      unmarshalCompactNodeInfos
        (writeAll CompactNodeInfo.marshalBinary (List.replicate 13 node6)) ≠
        (.ok (List.replicate 13 node6) : Except (NodeInfosError Unit) _) := by
  refine ⟨nodes6_node6 13, fun hread => ?_⟩
  have hlen := length_unmarshalCompactNodeInfos_nodes6 (nodes6_node6 13) (by decide) hread
  exact absurd hlen (by decide)

end DhtClient
