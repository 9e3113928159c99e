-- SUMMARY: When a routing table that is restored from its cache file keeps the most recently seen nodes, and in order.
import LazyDhtc.DhtClient.RoutingCache

/-!
# Recency across a restart

The file lists each bucket from most to least recently seen, and the replay puts every
node in front of those before it. The restored buckets are ordered only where the file
happens to list the nodes the other way round.
-/

namespace DhtClient

open Json Recency

/-- A node as the file has it. -/
def RoutingNode.inSeconds (n : RoutingNode) : RoutingNode :=
  { n with lastSeen := timeUnix (unix n.lastSeen) }

/-- What a restored table should be: its nodes are saved ones, its buckets are ordered by
    recency, and nodes that found no place, after the restart or in it, were seen no later
    than those that did. -/
structure RestoresRecency (network : Bytes) (saved restored : RoutingTable) : Prop where
  sound : ∀ n ∈ restored.snapshot, ∃ m ∈ saved.snapshot, n = m.inSeconds
  ordered : ∀ j (h : j < 160), ByRecency restored.buckets[j]
  freshest : ∀ j (h : j < 160), ∀ m ∈ saved.snapshot, acceptsAddress network m.addr = true →
    InBucket restored.localID j m.id → (∀ n ∈ restored.snapshot, n.id ≠ m.id) →
    ∀ n ∈ restored.buckets[j], m.inSeconds.lastSeen ≤ n.lastSeen
  evicts : ∀ id addr seen, ∀ j (h : j < 160), ∀ n ∈ restored.buckets[j],
    (∀ m ∈ (restored.add id addr seen).1.snapshot, m.id ≠ n.id) →
    ∀ m ∈ restored.buckets[j], n.lastSeen ≤ m.lastSeen

/-- Seen in the same second or earlier. -/
def SeenBefore (x y : RoutingNode) : Prop := unix x.lastSeen ≤ unix y.lastSeen

/-- The last nodes of the file that share a bucket of the new table read back as they are,
    and no node before them was seen in a later second. -/
structure RestoresInOrder (network : Bytes) (localID : NodeID) (saved : RoutingTable) : Prop where
  readable : ∀ j < 160, ∀ y ∈ (sharing network localID j saved.snapshot).reverse.take kBucketSize,
    0 < unix y.lastSeen ∧ Utf8.valid y.addr.addr.zone = true
  fresh : ∀ j < 160, EndsFresh SeenBefore kBucketSize (sharing network localID j saved.snapshot)

/-! ## The restored table -/

/-- What a new service has after it loaded the cache file of a saved table. -/
def restoredTable (network : Bytes) (now : Nat → Int) (saved : RoutingTable) (localID : Bytes)
    (maxNodes : UInt64) : RoutingTable :=
  loadRoutingTable network now (some (cacheData saved)) (newRoutingTable localID maxNodes)

/-- The nodes of one bucket, with their positions in the file. -/
def sharingAt (network : Bytes) (localID : NodeID) (j : Nat) (nodes : List RoutingNode) :
    List (RoutingNode × Nat) := nodes.zipIdx.filter fun p => shares network localID j p.1

theorem map_fst_sharingAt (network : Bytes) (localID : NodeID) (j : Nat)
    (nodes : List RoutingNode) :
    (sharingAt network localID j nodes).map Prod.fst = sharing network localID j nodes := by
  have hfilter := List.filter_map (p := shares network localID j) (f := Prod.fst)
    (l := nodes.zipIdx)
  rw [List.zipIdx_map_fst] at hfilter
  exact hfilter.symm

theorem mem_sharing {network : Bytes} {nodes : List RoutingNode} {localID : NodeID} {j : Nat}
    {n : RoutingNode} : n ∈ sharing network localID j nodes ↔
      n ∈ nodes ∧ acceptsAddress network n.addr = true ∧ InBucket localID j n.id := by
  rw [sharing, List.mem_filter, inBucket_iff]
  simp [shares]

theorem timeUnix_le {a b : Int64} : timeUnix a ≤ timeUnix b ↔ a ≤ b := by
  rw [Int64.le_iff_toInt_le, timeUnix, timeUnix, seconds, seconds]
  omega

theorem restored_eq_inSeconds {n : RoutingNode} (hseen : 0 < unix n.lastSeen)
    (hzone : Utf8.valid n.addr.addr.zone = true) (now : Int) : n.restored now = n.inSeconds := by
  have hle : ¬ unix n.lastSeen ≤ 0 := Int64.not_le.2 hseen
  rw [RoutingNode.restored, RoutingNode.inSeconds, onWire_eq_self_iff.2 hzone, restoredSeen,
    if_neg hle]

/-- A node of a table is known by its ID. -/
theorem RoutingTable.Inv.eq_of_id {t : RoutingTable} (hinv : t.Inv) {m n : RoutingNode}
    (hm : m ∈ t.snapshot) (hn : n ∈ t.snapshot) (hid : m.id = n.id) : m = n :=
  List.inj_on_of_nodup_map hinv.snapshot_nodup hm hn hid

theorem restoredTable_inv (network : Bytes) (now : Nat → Int) (saved : RoutingTable)
    (localID : Bytes) (maxNodes : UInt64) :
    (restoredTable network now saved localID maxNodes).Inv ∧
      (restoredTable network now saved localID maxNodes).localID = NodeID.ofBytes localID := by
  unfold restoredTable
  rw [loadRoutingTable_cacheData]
  refine List.foldlRecOn
    (motive := fun t : RoutingTable => t.Inv ∧ t.localID = NodeID.ofBytes localID) _ _
    ⟨newRoutingTable_inv localID maxNodes, rfl⟩ ?_
  rintro t ⟨hinv, hlocal⟩ p -
  unfold restoreNode
  split_ifs
  · obtain ⟨hadded, hlocal', -⟩ := hinv.run [.add p.1.id.toList p.1.addr.onWire
      (restoredSeen (now p.2) p.1.lastSeen)]
    exact ⟨hadded, hlocal'.trans hlocal⟩
  · exact ⟨hinv, hlocal⟩

section

variable {network : Bytes} {now : Nat → Int} {saved : RoutingTable} {localID : Bytes}
  {maxNodes : UInt64} (hinv : saved.Inv)
  (hroom : (saved.snapshot.length : Int) ≤ (newRoutingTable localID maxNodes).maxNodes)

include hinv hroom

/-- Each bucket holds the last nodes of the file that belong there, the very last first. -/
theorem restored_bucket {j : Nat} (hj : j < 160) :
    (restoredTable network now saved localID maxNodes).buckets[j] =
      ((sharingAt network (NodeID.ofBytes localID) j saved.snapshot).reverse.take kBucketSize).map
        fun p => p.1.restored (now p.2) := by
  have hempty : ∀ i (h : i < 160), (newRoutingTable localID maxNodes).buckets[i] = [] := by
    intro i h
    simp [newRoutingTable]
  have hids : (saved.snapshot.zipIdx.map fun p => p.1.id).Nodup := by
    have hfst : (saved.snapshot.zipIdx.map fun p => p.1.id) =
        (saved.snapshot.zipIdx.map Prod.fst).map RoutingNode.id := by
      rw [List.map_map]
      rfl
    rw [hfst, List.zipIdx_map_fst]
    exact hinv.snapshot_nodup
  have hfresh : ∀ p ∈ saved.snapshot.zipIdx, ∀ i (h : i < 160),
      ∀ m ∈ (newRoutingTable localID maxNodes).buckets[i], m.id ≠ p.1.id := by
    intro p _ i h m hm
    rw [hempty i h] at hm
    cases hm
  have hsize : (newRoutingTable localID maxNodes).size + saved.snapshot.zipIdx.length ≤
      (newRoutingTable localID maxNodes).maxNodes := by
    rw [List.length_zipIdx]
    have hzero : (newRoutingTable localID maxNodes).size = 0 := rfl
    omega
  unfold restoredTable
  rw [loadRoutingTable_cacheData, foldl_restoreNode network now hids hfresh hsize hj, hempty j hj,
    foldl_push (by decide) _ (Nat.zero_le _), List.append_nil, ← List.map_reverse, ← List.map_take]
  rfl

/-- Where all entries read back, each bucket holds the last nodes as the file has them. -/
theorem readable_bucket {j : Nat} (hj : j < 160)
    (hreadable : ∀ y ∈ (sharing network (NodeID.ofBytes localID) j
      saved.snapshot).reverse.take kBucketSize,
      0 < unix y.lastSeen ∧ Utf8.valid y.addr.addr.zone = true) :
    (restoredTable network now saved localID maxNodes).buckets[j] =
      ((sharing network (NodeID.ofBytes localID) j saved.snapshot).reverse.take kBucketSize).map
        RoutingNode.inSeconds := by
  rw [restored_bucket hinv hroom hj]
  rw [← map_fst_sharingAt, ← List.map_reverse, ← List.map_take] at hreadable ⊢
  rw [List.map_map]
  refine List.map_congr_left ?_
  intro p hp
  obtain ⟨hseen, hzone⟩ := hreadable p.1 (List.mem_map_of_mem hp)
  exact restored_eq_inSeconds hseen hzone (now p.2)

/-- A restored node is one of the last of its bucket. -/
theorem mem_restoredTable {n : RoutingNode}
    (hn : n ∈ (restoredTable network now saved localID maxNodes).snapshot) : ∃ j < 160,
      ∃ m ∈ (sharing network (NodeID.ofBytes localID) j saved.snapshot).reverse.take kBucketSize,
        n.id = m.id := by
  obtain ⟨j, hj, hn⟩ := RoutingTable.mem_snapshot.1 hn
  rw [restored_bucket hinv hroom hj] at hn
  obtain ⟨p, hp, rfl⟩ := List.mem_map.1 hn
  refine ⟨j, hj, p.1, ?_, rfl⟩
  rw [← map_fst_sharingAt, ← List.map_reverse, ← List.map_take]
  exact List.mem_map_of_mem hp

/-- A node that is left out of its bucket is nowhere in the table. -/
theorem absent_of_dropped {j : Nat} {b : RoutingNode}
    (hb : b ∈ (sharing network (NodeID.ofBytes localID) j saved.snapshot).reverse.drop kBucketSize) :
    ∀ n ∈ (restoredTable network now saved localID maxNodes).snapshot, n.id ≠ b.id := by
  intro n hn hid
  obtain ⟨i, -, m, hm, hid'⟩ := mem_restoredTable hinv hroom hn
  obtain ⟨hsaved, -, hplaced⟩ := mem_sharing.1 (mem_of_kept hm)
  obtain ⟨hsaved', -, hplaced'⟩ := mem_sharing.1 (mem_of_dropped hb)
  obtain rfl := hinv.eq_of_id hsaved hsaved' (hid'.symm.trans hid)
  obtain rfl := hplaced.index_eq hplaced'
  -- no node is twice in the file
  have hnodup : (sharing network (NodeID.ofBytes localID) i saved.snapshot).reverse.Nodup :=
    List.nodup_reverse.2 ((hinv.snapshot_nodup.of_map _).filter _)
  rw [← List.take_append_drop kBucketSize (List.reverse _), List.nodup_append] at hnodup
  exact hnodup.2.2 m hm m hb rfl

/-! ## Enough -/

theorem restoresRecency_of_inOrder (h : RestoresInOrder network (NodeID.ofBytes localID) saved)
    (now : Nat → Int) :
    RestoresRecency network saved (restoredTable network now saved localID maxNodes) := by
  obtain ⟨hloaded, hlocal⟩ := restoredTable_inv network now saved localID maxNodes
  have hbucket : ∀ j (hj : j < 160),
      (restoredTable network now saved localID maxNodes).buckets[j] = _ :=
    fun j hj => readable_bucket hinv hroom hj (h.readable j hj)
  generalize restoredTable network now saved localID maxNodes = restored at hloaded hlocal hbucket
  have hkeeps := fun j (hj : j < 160) => (keepsFresh_reverse_iff _ _).2 (h.fresh j hj)
  have hordered : ∀ j (h : j < 160), ByRecency restored.buckets[j] := by
    intro j hj
    rw [hbucket j hj, ByRecency, List.pairwise_map]
    exact (hkeeps j hj).1.imp timeUnix_le.2
  refine ⟨?_, hordered, ?_, ?_⟩
  · intro n hn
    obtain ⟨j, hj, hn⟩ := RoutingTable.mem_snapshot.1 hn
    rw [hbucket j hj] at hn
    obtain ⟨m, hm, rfl⟩ := List.mem_map.1 hn
    exact ⟨m, (mem_sharing.1 (mem_of_kept hm)).1, rfl⟩
  · intro j hj m hm haccepts hplaced habsent n hn
    rw [hlocal] at hplaced
    rw [hbucket j hj] at hn
    obtain ⟨y, hy, rfl⟩ := List.mem_map.1 hn
    rcases kept_or_dropped (mem_sharing.2 ⟨hm, haccepts, hplaced⟩) kBucketSize with hkept | hdropped
    · -- a node that is kept is in the table
      have hin : m.inSeconds ∈ restored.snapshot := by
        refine RoutingTable.mem_snapshot.2 ⟨j, hj, ?_⟩
        rw [hbucket j hj]
        exact List.mem_map_of_mem hkept
      exact absurd rfl (habsent m.inSeconds hin)
    · exact timeUnix_le.2 ((hkeeps j hj).2 y hy m hdropped)
  · intro id addr seen j hj n hn hgone
    exact (RoutingTable.add_evicts_least_recent hloaded hj (hordered j hj) id addr seen hn hgone).2

/-! ## Necessary -/

/-- Whatever the clock reads, an entry that is kept is one that reads back. -/
theorem readable_of_sound
    (hsound : ∀ n ∈ (restoredTable network (fun _ => 1) saved localID maxNodes).snapshot,
      ∃ m ∈ saved.snapshot, n = m.inSeconds) {j : Nat} (hj : j < 160) {y : RoutingNode}
    (hy : y ∈ (sharing network (NodeID.ofBytes localID) j saved.snapshot).reverse.take kBucketSize) :
    0 < unix y.lastSeen ∧ Utf8.valid y.addr.addr.zone = true := by
  have hsaved := (mem_sharing.1 (mem_of_kept hy)).1
  have hin : y.restored 1 ∈ (restoredTable network (fun _ => 1) saved localID maxNodes).snapshot := by
    refine RoutingTable.mem_snapshot.2 ⟨j, hj, ?_⟩
    rw [restored_bucket hinv hroom hj]
    rw [← map_fst_sharingAt, ← List.map_reverse, ← List.map_take] at hy
    obtain ⟨p, hp, rfl⟩ := List.mem_map.1 hy
    exact List.mem_map.2 ⟨p, hp, rfl⟩
  obtain ⟨m, hm, heq⟩ := hsound _ hin
  have hid := congrArg RoutingNode.id heq
  obtain rfl := hinv.eq_of_id hsaved hm hid
  have haddr := congrArg RoutingNode.addr heq
  have hseen := congrArg RoutingNode.lastSeen heq
  refine ⟨?_, onWire_eq_self_iff.1 haddr⟩
  change restoredSeen 1 y.lastSeen = timeUnix (unix y.lastSeen) at hseen
  unfold restoredSeen at hseen
  split_ifs at hseen with hle
  · -- the clock reads no whole second
    rw [timeUnix, seconds] at hseen
    omega
  · exact Int64.not_le.1 hle

theorem inOrder_of_restoresRecency (h : RestoresRecency network saved
      (restoredTable network (fun _ => 1) saved localID maxNodes)) :
    RestoresInOrder network (NodeID.ofBytes localID) saved := by
  have hreadable := fun j (hj : j < 160) y hy => readable_of_sound hinv hroom h.sound hj (y := y) hy
  refine ⟨hreadable, ?_⟩
  intro j hj
  refine (keepsFresh_reverse_iff _ _).1 ⟨?_, ?_⟩
  · have hordered := h.ordered j hj
    rw [readable_bucket hinv hroom hj (hreadable j hj), ByRecency, List.pairwise_map] at hordered
    exact hordered.imp timeUnix_le.1
  · intro a ha b hb
    obtain ⟨hsaved, haccepts, hplaced⟩ := mem_sharing.1 (mem_of_dropped hb)
    have hlocal := (restoredTable_inv network (fun _ => 1) saved localID maxNodes).2
    have hkept : a.inSeconds ∈ (restoredTable network (fun _ => 1) saved localID
        maxNodes).buckets[j] := by
      rw [readable_bucket hinv hroom hj (hreadable j hj)]
      exact List.mem_map_of_mem ha
    exact timeUnix_le.1 (h.freshest j hj b hsaved haccepts (hlocal.symm ▸ hplaced)
      (absent_of_dropped hinv hroom hb) a.inSeconds hkept)

end

theorem saveRoutingTable_data {calls : FileCalls} {cachePath data : Bytes} {t : RoutingTable}
    (h : saveRoutingTable calls cachePath t none = some data) : data = cacheData t := by
  unfold saveRoutingTable at h
  split_ifs at h
  exact (Option.some.inj h).symm

/-! ## Exactly when -/

/-- Whatever the clock reads, the restored table keeps recency exactly if the file lists the
    nodes that come to share a bucket in the order they were seen, from the ninth last on. -/
theorem restore_keeps_recency_iff (network localID localID' cachePath data : Bytes)
    (maxNodes maxNodes' : UInt64) (ops : List RoutingTable.Op) (calls : FileCalls)
    (hsaved : saveRoutingTable calls cachePath ((newRoutingTable localID maxNodes).run ops) none =
      some data)
    (hroom : (((newRoutingTable localID maxNodes).run ops).snapshot.length : Int) ≤
      (newRoutingTable localID' maxNodes').maxNodes) :
    (∀ now : Nat → Int, RestoresRecency network ((newRoutingTable localID maxNodes).run ops)
        (loadRoutingTable network now (some data) (newRoutingTable localID' maxNodes'))) ↔
      RestoresInOrder network (NodeID.ofBytes localID')
        ((newRoutingTable localID maxNodes).run ops) := by
  have hinv := ((newRoutingTable_inv localID maxNodes).run ops).1
  obtain rfl := saveRoutingTable_data hsaved
  constructor
  · intro h
    exact inOrder_of_restoresRecency hinv hroom (h fun _ => 1)
  · intro h now
    exact restoresRecency_of_inOrder hinv hroom h now

/-! ## Two nodes of one bucket -/

def sampleID (last : UInt8) : Bytes := 0x80 :: (List.replicate 18 0 ++ [last])

def sampleAddr (last : UInt8) : AddrPort := ⟨.v4 #v[192, 0, 2, last], 6881⟩

def sampleNode (last : UInt8) (seen : Int) : RoutingNode :=
  ⟨NodeID.ofBytes (sampleID last), sampleAddr last, seen⟩

/-- A table with two nodes that were seen at these times. -/
def sampleTable (seen₁ seen₂ : Int) : RoutingTable :=
  (newRoutingTable [] 8).run [.add (sampleID 1) (sampleAddr 1) seen₁,
    .add (sampleID 2) (sampleAddr 2) seen₂]

theorem sampleTable_snapshot (seen₁ seen₂ : Int) :
    (sampleTable seen₁ seen₂).snapshot = [sampleNode 2 seen₂, sampleNode 1 seen₁] := by
  rfl

/-- Two nodes are seen a minute apart, and are restored in the wrong order. -/
theorem restore_reverses_recency :
    ¬ ∀ (network localID localID' cachePath data : Bytes) (maxNodes maxNodes' : UInt64)
      (adds : List (Bytes × AddrPort × Int)) (calls : FileCalls) (now : Nat → Int),
      (adds.map fun a => a.2.2).Pairwise (· < ·) →
      saveRoutingTable calls cachePath ((newRoutingTable localID maxNodes).run
        (adds.map fun a => .add a.1 a.2.1 a.2.2)) none = some data →
      (((newRoutingTable localID maxNodes).run
          (adds.map fun a => .add a.1 a.2.1 a.2.2)).snapshot.length : Int) ≤
        (newRoutingTable localID' maxNodes').maxNodes →
      RestoresRecency network ((newRoutingTable localID maxNodes).run
          (adds.map fun a => .add a.1 a.2.1 a.2.2))
        (loadRoutingTable network now (some data) (newRoutingTable localID' maxNodes')) := by
  intro h
  let saved := sampleTable (seconds 1700000000) (seconds 1700000060)
  have hsnapshot : saved.snapshot = _ := sampleTable_snapshot _ _
  have hroom : (saved.snapshot.length : Int) ≤ (newRoutingTable [] 8).maxNodes := by
    rw [hsnapshot]
    decide
  have hinv : saved.Inv := ((newRoutingTable_inv [] 8).run _).1
  have hrestored := h (ascii "udp4") [] [] (ascii "c") (cacheData saved) 8 8
    [(sampleID 1, sampleAddr 1, seconds 1700000000), (sampleID 2, sampleAddr 2, seconds 1700000060)]
    ⟨true, true, true, true, true, true⟩ (fun _ => seconds 1700000100) (by decide) rfl hroom
  have hshared : sharing (ascii "udp4") (NodeID.ofBytes []) 159 saved.snapshot =
      [sampleNode 2 (seconds 1700000060), sampleNode 1 (seconds 1700000000)] := by
    rw [hsnapshot]
    decide
  have hbucket : (restoredTable (ascii "udp4") (fun _ => seconds 1700000100) saved []
      8).buckets[159] = _ :=
    readable_bucket hinv hroom (by decide) (by rw [hshared]; decide)
  rw [hshared] at hbucket
  have hordered : ByRecency (restoredTable (ascii "udp4") (fun _ => seconds 1700000100) saved []
      8).buckets[159] :=
    hrestored.ordered 159 (by decide)
  rw [hbucket] at hordered
  have hfirst := (List.pairwise_cons.1 hordered).1 _ (List.mem_singleton_self _)
  exact absurd hfirst (by decide)

/-- Two nodes that are seen in the same second are restored under another local ID. -/
theorem restore_keeps_recency_iff_same_second :
    RestoresRecency (ascii "udp4")
      (sampleTable (seconds 1700000000) (seconds 1700000000 + 1))
      (loadRoutingTable (ascii "udp4") (fun _ => seconds 1700000100)
        (some (cacheData (sampleTable (seconds 1700000000) (seconds 1700000000 + 1))))
        (newRoutingTable [0xFF] 8)) := by
  let saved := sampleTable (seconds 1700000000) (seconds 1700000000 + 1)
  have hsnapshot : saved.snapshot = _ := sampleTable_snapshot _ _
  have hroom : (saved.snapshot.length : Int) ≤ (newRoutingTable [0xFF] 8).maxNodes := by
    rw [hsnapshot]
    decide
  have hnode : ∀ j, ∀ y ∈ sharing (ascii "udp4") (NodeID.ofBytes [0xFF]) j saved.snapshot,
      unix y.lastSeen = 1700000000 ∧ Utf8.valid y.addr.addr.zone = true := by
    intro j y hy
    have hmem := (mem_sharing.1 hy).1
    rw [hsnapshot, List.mem_cons, List.mem_singleton] at hmem
    rcases hmem with rfl | rfl
    · decide
    · decide
  have horder : RestoresInOrder (ascii "udp4") (NodeID.ofBytes [0xFF]) saved := by
    constructor
    · intro j _ y hy
      obtain ⟨hseen, hzone⟩ := hnode j y (List.mem_reverse.1 (List.mem_of_mem_take hy))
      exact ⟨by rw [hseen]; decide, hzone⟩
    · intro j _ earlier y later hsplit _ x hx
      have hx' := hnode j x (by rw [hsplit]; exact List.mem_append_left _ hx)
      have hy' := hnode j y (by rw [hsplit]; simp)
      rw [SeenBefore, hx'.1, hy'.1]
      exact Int64.le_refl _
  exact (restore_keeps_recency_iff (ascii "udp4") [] [0xFF] (ascii "c") (cacheData saved) 8 8 _
    ⟨true, true, true, true, true, true⟩ rfl hroom).2 horder fun _ => seconds 1700000100

end DhtClient
