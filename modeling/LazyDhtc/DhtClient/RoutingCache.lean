-- SUMMARY: The routing table's cache file: saving the table, and replaying the saved nodes into a table with another local ID.
import LazyDhtc.DhtClient.AddrText
import LazyDhtc.DhtClient.RoutingTable
import LazyDhtc.Lib.Json.Indent
import LazyDhtc.Lib.Json.Decode
import LazyDhtc.Lib.Recency

/-!
# The routing cache

A service saves the nodes of its routing table, bucket by bucket, and another service
adds them to its own table in that order. Times count from the Unix epoch here.
-/

namespace DhtClient

open Json Recency

/-! ## Entries -/

structure RoutingCacheEntry where
  id : Bytes
  address : Bytes
  lastSeen : Int64

def encodeEntry (e : RoutingCacheEntry) : Value :=
  .obj [(ascii "id", .str e.id), (ascii "address", .str e.address),
    (ascii "last_seen", ofInt64 e.lastSeen)]

def entryFields : List (StructField RoutingCacheEntry) :=
  [field "id" RoutingCacheEntry.id (fun e s => { e with id := s }) decodeString,
    field "address" RoutingCacheEntry.address (fun e s => { e with address := s }) decodeString,
    field "last_seen" RoutingCacheEntry.lastSeen (fun e n => { e with lastSeen := n }) decodeInt64]

def decodeEntry : Decoder RoutingCacheEntry := decodeStruct entryFields

def zeroEntry : RoutingCacheEntry := ⟨[], [], 0⟩

/-- An entry as it is read back. -/
def RoutingCacheEntry.onWire (e : RoutingCacheEntry) : RoutingCacheEntry :=
  { e with id := Utf8.coerce e.id, address := Utf8.coerce e.address }

/-- `Time.Unix`. -/
def unix (t : Int) : Int64 := .ofInt (t / 1000000000)

/-- `time.Unix(sec, 0)`. -/
def timeUnix (sec : Int64) : Int := seconds sec.toInt

def RoutingNode.entry (n : RoutingNode) : RoutingCacheEntry :=
  ⟨Hex.encode n.id.toList, n.addr.string, unix n.lastSeen⟩

/-! ## Saving -/

/-- Which of the calls that write the file succeed. -/
structure FileCalls where
  createTemp : Bool
  chmod : Bool
  write : Bool
  sync : Bool
  close : Bool
  rename : Bool

def cacheData (t : RoutingTable) : Bytes :=
  indent 0 (.arr (t.snapshot.map fun n => encodeEntry n.entry))

/-- The content of the cache file after `saveRoutingTable`. The temporary file replaces it
    once it is written as a whole. -/
def saveRoutingTable (calls : FileCalls) (cachePath : Bytes) (t : RoutingTable)
    (file : Option Bytes) : Option Bytes :=
  if cachePath = [] then file
  else if calls.createTemp && calls.chmod && calls.write && calls.sync && calls.close &&
      calls.rename then some (cacheData t)
  else file

/-! ## Loading -/

def acceptsAddress (network : Bytes) (addr : AddrPort) : Bool :=
  if addr.isValid = false ∨ addr.port = 0 then false
  else
    network = ascii "udp4" && addr.addr.is4 || network = ascii "udp6" && !addr.addr.is4

/-- The loop body of `loadRoutingTable`; `now` is what the clock reads. -/
def restoreEntry (network : Bytes) (now : Int) (t : RoutingTable) (e : RoutingCacheEntry) :
    RoutingTable :=
  match Hex.decode e.id with
  | none => t
  | some id =>
    if id.length ≠ 20 then t
    else
      match parseAddrPort e.address with
      | none => t
      | some addr =>
        let seen := if e.lastSeen ≤ 0 then now else timeUnix e.lastSeen
        if acceptsAddress network addr then (t.add id addr seen).1 else t

/-- `loadRoutingTable`, with what the clock reads at each entry. -/
def loadRoutingTable (network : Bytes) (now : Nat → Int) (file : Option Bytes)
    (t : RoutingTable) : RoutingTable :=
  match file with
  | none => t
  | some data =>
    match readAll data with
    | none => t
    | some v =>
      match decodeSlice decodeEntry zeroEntry [] v with
      | (entries, ok) =>
        if ok then entries.zipIdx.foldl (fun t p => restoreEntry network (now p.2) t p.1) t else t

/-! ## What a file holds -/

/-- What a saved time reads as. -/
def restoredSeen (now lastSeen : Int) : Int :=
  if unix lastSeen ≤ 0 then now else timeUnix (unix lastSeen)

/-- A saved node as it is restored. -/
def RoutingNode.restored (now : Int) (n : RoutingNode) : RoutingNode :=
  ⟨n.id, n.addr.onWire, restoredSeen now n.lastSeen⟩

def restoreNode (network : Bytes) (now : Int) (t : RoutingTable) (n : RoutingNode) :
    RoutingTable :=
  if acceptsAddress network n.addr then
    (t.add n.id.toList n.addr.onWire (restoredSeen now n.lastSeen)).1
  else t

theorem acceptsAddress_onWire (network : Bytes) (addr : AddrPort) :
    acceptsAddress network addr.onWire = acceptsAddress network addr := by
  obtain ⟨a, port⟩ := addr
  cases a <;> rfl

theorem acceptsAddress_valid {network : Bytes} {addr : AddrPort}
    (h : acceptsAddress network addr = true) : addr.isValid = true ∧ addr.port ≠ 0 := by
  unfold acceptsAddress at h
  split_ifs at h with hreject
  · simpa using hreject

theorem decodeEntry_encode (e : RoutingCacheEntry) :
    decodeEntry zeroEntry (encodeEntry e).coerce = (e.onWire, true) := by
  simp only [decodeEntry, encodeEntry, Value.coerce, decodeStruct]
  rw [foldl_field entryFields rfl (decodeString_of _ e.id)]
  rw [foldl_field entryFields rfl (decodeString_of _ e.address)]
  rw [foldl_field entryFields rfl (decodeInt64_of _ e.lastSeen)]
  rfl

/-- An entry restores the node that it was made from. -/
theorem restoreEntry_entry (network : Bytes) (now : Int) (t : RoutingTable) (n : RoutingNode) :
    restoreEntry network now t n.entry.onWire = restoreNode network now t n := by
  have hid : Utf8.coerce (Hex.encode n.id.toList) = Hex.encode n.id.toList :=
    Utf8.coerce_ascii (Hex.encode_ascii _)
  have hlen : n.id.toList.length = 20 := by simp
  simp only [restoreEntry, RoutingCacheEntry.onWire, RoutingNode.entry, hid,
    Hex.decode_encode, hlen, parseAddrPort_coerce]
  unfold restoreNode
  cases hvalid : n.addr.isValid with
  | false => simp [acceptsAddress, hvalid]
  | true =>
    simp only [ne_eq, not_true_eq_false, if_false, if_true, acceptsAddress_onWire]
    rfl

theorem depth_cacheData (t : RoutingTable) :
    (Value.arr (t.snapshot.map fun n => encodeEntry n.entry)).depth ≤ maxNestingDepth := by
  have hentry : ∀ e, (encodeEntry e).depth ≤ 1 := by
    intro e
    refine depth_obj_le ?_
    simp
  have hdepth : (Value.arr (t.snapshot.map fun n => encodeEntry n.entry)).depth ≤ 2 := by
    refine depth_arr_le ?_
    intro v hv
    obtain ⟨n, -, rfl⟩ := List.mem_map.1 hv
    exact hentry n.entry
  exact hdepth.trans (by decide)

/-- Loading a saved table is a replay of its nodes. -/
theorem loadRoutingTable_cacheData (network : Bytes) (now : Nat → Int) (saved t : RoutingTable) :
    loadRoutingTable network now (some (cacheData saved)) t =
      saved.snapshot.zipIdx.foldl (fun t p => restoreNode network (now p.2) t p.1) t := by
  have hmap : (saved.snapshot.map fun n => encodeEntry n.entry) =
      (saved.snapshot.map RoutingNode.entry).map encodeEntry := by
    rw [List.map_map]
    rfl
  have hread := readAll_indent (depth_cacheData saved) 0
  unfold loadRoutingTable cacheData
  simp only [hread]
  rw [hmap, decodeSlice_arr decodeEntry_encode]
  simp only [if_true, List.map_map, List.zipIdx_map, List.foldl_map]
  congr 1
  funext t p
  exact restoreEntry_entry network (now p.2) t p.1

/-! ## The replay -/

/-- The network accepts the node, and it belongs into bucket `j`. -/
def shares (network : Bytes) (localID : NodeID) (j : Nat) (n : RoutingNode) : Bool :=
  acceptsAddress network n.addr && xorBucketIndex localID n.id = j

/-- The nodes that are added to bucket `j`, in the order of the file. -/
def sharing (network : Bytes) (localID : NodeID) (j : Nat) (nodes : List RoutingNode) :
    List RoutingNode := nodes.filter (shares network localID j)

theorem NodeID.ofBytes_toList (id : NodeID) : NodeID.ofBytes id.toList = id := by
  refine Vector.toList_inj.1 ?_
  rw [NodeID.toList_ofBytes, padTo_of_length (by simp)]

theorem inBucket_iff {localID id : NodeID} {j : Nat} :
    InBucket localID j id ↔ xorBucketIndex localID id = j := by
  rcases xorBucketIndex_spec localID id with ⟨hneg, rfl⟩ | ⟨i, hi, -, hlo, hhi⟩
  · refine iff_of_false ?_ (by rw [hneg]; omega)
    rintro ⟨hlo, -⟩
    have hpos := Nat.two_pow_pos j
    rw [NodeID.distance, Nat.xor_self] at hlo
    omega
  · constructor
    · intro h
      rw [hi, h.index_eq ⟨hlo, hhi⟩]
    · intro h
      have hij : i = j := by omega
      subst hij
      exact ⟨hlo, hhi⟩

/-- A node that the bucket does not have goes to its front, as long as there is room. -/
theorem RoutingTable.add_fresh {t : RoutingTable} {id : NodeID} {addr : AddrPort} {i : Nat}
    (hi : i < 160) (haddr : addr.isValid = true ∧ addr.port ≠ 0)
    (hindex : xorBucketIndex t.localID id = i) (hfresh : ∀ n ∈ t.buckets[i], n.id ≠ id)
    (hroom : t.size < t.maxNodes) (seen : Int) :
    ∃ size ≤ t.size + 1, (t.add id.toList addr seen).1 = { t with
      buckets := t.buckets.set i (push kBucketSize t.buckets[i] ⟨id, addr, seen⟩)
      size := size } := by
  have hlen : id.toList.length = 20 := by simp
  have hnone : t.buckets[i].findIdx? (fun n => n.id = id) = none := by
    rw [List.findIdx?_eq_none_iff]
    simpa using hfresh
  have hadd : t.add id.toList addr seen = t.addToBucket ⟨i, hi⟩ ⟨id, addr, seen⟩ := by
    unfold RoutingTable.add
    simp only [hlen, haddr.1, haddr.2, NodeID.ofBytes_toList, hindex, ne_eq, not_true_eq_false,
      Bool.true_eq_false, or_self, if_false, Int.toNat_natCast]
    rw [if_neg (by omega)]
  rw [hadd]
  unfold RoutingTable.addToBucket
  simp only [Fin.getElem_fin, hnone]
  split_ifs with hfull hsize
  · exact ⟨t.size, by omega, rfl⟩
  · omega
  · refine ⟨t.size + 1, Int.le_refl _, ?_⟩
    rw [push, List.take_of_length_le (by omega)]

/-- The local ID itself is never added. -/
theorem RoutingTable.add_self {t : RoutingTable} {id : NodeID}
    (hindex : xorBucketIndex t.localID id = -1) (addr : AddrPort) (seen : Int) :
    (t.add id.toList addr seen).1 = t := by
  have hneg : xorBucketIndex t.localID (NodeID.ofBytes id.toList) < 0 := by
    rw [NodeID.ofBytes_toList, hindex]
    decide
  unfold RoutingTable.add
  rw [if_pos hneg]
  split_ifs
  · rfl
  · rfl

/-- Restoring a node that the table does not have puts it in front of its bucket, if the
    network accepts it. -/
theorem restoreNode_fresh (network : Bytes) (now : Int) {t : RoutingTable} {n : RoutingNode}
    (hfresh : ∀ j (h : j < 160), ∀ m ∈ t.buckets[j], m.id ≠ n.id) (hroom : t.size < t.maxNodes) :
    (restoreNode network now t n).localID = t.localID ∧
      (restoreNode network now t n).maxNodes = t.maxNodes ∧
      (restoreNode network now t n).size ≤ t.size + 1 ∧
      ∀ j (h : j < 160), (restoreNode network now t n).buckets[j] =
        if shares network t.localID j n then push kBucketSize t.buckets[j] (n.restored now)
        else t.buckets[j] := by
  unfold restoreNode
  by_cases haccepts : acceptsAddress network n.addr = true
  · rw [if_pos haccepts]
    rcases xorBucketIndex_spec t.localID n.id with ⟨hself, -⟩ | ⟨i, hindex, hi, -⟩
    · have hnowhere : ∀ j : Nat, shares network t.localID j n = false := by
        intro j
        have hne : (-1 : Int) ≠ j := by omega
        simp [shares, hself, hne]
      rw [RoutingTable.add_self hself]
      refine ⟨rfl, rfl, by omega, ?_⟩
      intro j h
      rw [hnowhere, if_neg Bool.false_ne_true]
    · have haddr : n.addr.onWire.isValid = true ∧ n.addr.onWire.port ≠ 0 :=
        acceptsAddress_valid ((acceptsAddress_onWire network n.addr).trans haccepts)
      obtain ⟨size, hsize, hadd⟩ := RoutingTable.add_fresh hi haddr hindex (hfresh i hi) hroom
        (restoredSeen now n.lastSeen)
      rw [hadd]
      refine ⟨rfl, rfl, hsize, ?_⟩
      intro j h
      have hshares : shares network t.localID j n = true ↔ i = j := by
        simp only [shares, haccepts, hindex, Bool.true_and, decide_eq_true_eq]
        omega
      simp only [Vector.getElem_set hi h, hshares]
      split_ifs with hij
      · subst hij
        rfl
      · rfl
  · have hnowhere : ∀ j : Nat, shares network t.localID j n = false := by
      intro j
      simp [shares, haccepts]
    rw [if_neg haccepts]
    refine ⟨rfl, rfl, by omega, ?_⟩
    intro j h
    rw [hnowhere, if_neg Bool.false_ne_true]

/-- A replay into a table that has room for all nodes and none of them yet. -/
theorem foldl_restoreNode (network : Bytes) (now : Nat → Int) {pairs : List (RoutingNode × Nat)}
    {t : RoutingTable} (hids : (pairs.map fun p => p.1.id).Nodup)
    (hfresh : ∀ p ∈ pairs, ∀ j (h : j < 160), ∀ m ∈ t.buckets[j], m.id ≠ p.1.id)
    (hroom : t.size + pairs.length ≤ t.maxNodes) {j : Nat} (hj : j < 160) :
    (pairs.foldl (fun t p => restoreNode network (now p.2) t p.1) t).buckets[j] =
      ((pairs.filter fun p => shares network t.localID j p.1).map fun p =>
        p.1.restored (now p.2)).foldl (push kBucketSize) t.buckets[j] := by
  induction pairs generalizing t with
  | nil => rfl
  | cons p pairs ih =>
    obtain ⟨hnew, hids⟩ := List.nodup_cons.1 hids
    rw [List.length_cons] at hroom
    obtain ⟨hlocal, hmax, hsize, hbuckets⟩ := restoreNode_fresh network (now p.2)
      (hfresh p List.mem_cons_self) (by omega)
    have hfresh' : ∀ q ∈ pairs, ∀ i (h : i < 160),
        ∀ m ∈ (restoreNode network (now p.2) t p.1).buckets[i], m.id ≠ q.1.id := by
      intro q hq i h m hm
      have hold := hfresh q (List.mem_cons_of_mem p hq) i h
      rw [hbuckets i h] at hm
      split_ifs at hm
      · rcases List.mem_cons.1 hm with rfl | hm
        · exact fun heq => hnew (List.mem_map.2 ⟨q, hq, heq.symm⟩)
        · exact hold m (List.mem_of_mem_take hm)
      · exact hold m hm
    rw [List.foldl_cons, ih hids hfresh' (by omega), hlocal, hbuckets j hj, List.filter_cons]
    split_ifs
    · rfl
    · rfl

end DhtClient
