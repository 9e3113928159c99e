-- SUMMARY: The Kademlia routing table: adding and pruning nodes, and the representation invariant of every reachable table.
import LazyDhtc.DhtClient.Types
import Mathlib.Data.List.Nodup

/-!
# Routing table

A table holds 160 buckets of at most `kBucketSize` nodes, one for each position of
the highest bit in which a node's ID differs from the local one. `RoutingTable.Inv`
is what every sequence of `add` and `prune` keeps.
-/

namespace DhtClient

def kBucketSize : Nat := 8

/-- A `[20]byte`. -/
abbrev NodeID := Vector UInt8 20

structure RoutingNode where
  id : NodeID
  addr : AddrPort
  lastSeen : Int
deriving DecidableEq

structure RoutingTable where
  localID : NodeID
  buckets : Vector (List RoutingNode) 160
  maxNodes : Int
  size : Int

/-- `copy(id[:], bytes)` into a zeroed array. -/
def NodeID.ofBytes (bytes : Bytes) : NodeID :=
  ⟨(padTo 20 bytes).toArray, by simp⟩

@[simp] theorem NodeID.toList_ofBytes (bytes : Bytes) :
    (NodeID.ofBytes bytes).toList = padTo 20 bytes := rfl

/-- The distance of two IDs as a 160-bit number. -/
def NodeID.distance (a b : NodeID) : Nat := beNat a.toList ^^^ beNat b.toList

/-! ## Bucket index -/

/-- The loop of `xorBucketIndex` from some position on; the bytes after position
    `i` number `len(local) - 1 - i`. -/
def xorBucketIndexFrom : Bytes → Bytes → Int
  | l :: ls, r :: rs =>
    let x := l ^^^ r
    if x ≠ 0 then (ls.length * 8 + len8 x : Int) - 1 else xorBucketIndexFrom ls rs
  | _, _ => -1

def xorBucketIndex (localID remote : NodeID) : Int :=
  xorBucketIndexFrom localID.toList remote.toList

theorem xorBucketIndexFrom_spec {ls rs : Bytes} (h : ls.length = rs.length) :
    (xorBucketIndexFrom ls rs = -1 ∧ ls = rs) ∨
    ∃ i : Nat, xorBucketIndexFrom ls rs = i ∧ i < ls.length * 8 ∧
      2 ^ i ≤ beNat (xorBytes ls rs) ∧ beNat (xorBytes ls rs) < 2 ^ (i + 1) := by
  induction ls generalizing rs with
  | nil =>
    cases rs with
    | nil => exact .inl ⟨rfl, rfl⟩
    | cons r rs => simp at h
  | cons l ls ih =>
    cases rs with
    | nil => simp at h
    | cons r rs =>
      have hlen : ls.length = rs.length := by simpa using h
      by_cases hx : l ^^^ r = 0
      · -- equal leading bytes contribute nothing to the distance
        have hlr : l = r := UInt8.xor_eq_zero_iff.1 hx
        have hstep : xorBucketIndexFrom (l :: ls) (r :: rs) = xorBucketIndexFrom ls rs := by
          simp [xorBucketIndexFrom, hx]
        have hdist : beNat (xorBytes (l :: ls) (r :: rs)) = beNat (xorBytes ls rs) := by
          simp [xorBytes, beNat, hx]
        rw [hstep, hdist]
        rcases ih hlen with ⟨hneg, heq⟩ | ⟨i, hi, hlt, hlo, hhi⟩
        · exact .inl ⟨hneg, by rw [hlr, heq]⟩
        · exact .inr ⟨i, hi, by simp only [List.length_cons]; omega, hlo, hhi⟩
      · have hbounds := beNat_cons_bounds (xorBytes ls rs) hx
        have hxlen : (xorBytes ls rs).length = ls.length := by simp [xorBytes, hlen]
        have hpos : 1 ≤ len8 (l ^^^ r) := by simp [len8, hx]
        have hle := len8_le (l ^^^ r)
        rw [hxlen] at hbounds
        refine .inr ⟨ls.length * 8 + len8 (l ^^^ r) - 1, ?_, ?_, hbounds.1, ?_⟩
        · simp only [xorBucketIndexFrom, ne_eq, hx, not_false_eq_true, if_true]
          omega
        · simp only [List.length_cons]; omega
        · rw [show ls.length * 8 + len8 (l ^^^ r) - 1 + 1 = ls.length * 8 + len8 (l ^^^ r) by
            omega]
          exact hbounds.2

/-- The bucket index is `-1` for the local ID, and otherwise the position of the
    highest bit of the distance. -/
theorem xorBucketIndex_spec (localID remote : NodeID) :
    (xorBucketIndex localID remote = -1 ∧ localID = remote) ∨
    ∃ i : Nat, xorBucketIndex localID remote = i ∧ i < 160 ∧
      2 ^ i ≤ remote.distance localID ∧ remote.distance localID < 2 ^ (i + 1) := by
  have hlen : localID.toList.length = remote.toList.length := by simp
  have hdist : beNat (xorBytes localID.toList remote.toList) = remote.distance localID := by
    rw [beNat_xorBytes hlen, Nat.xor_comm]
    rfl
  rcases xorBucketIndexFrom_spec hlen with ⟨hneg, heq⟩ | ⟨i, hi, hlt, hlo, hhi⟩
  · exact .inl ⟨hneg, Vector.toList_inj.1 heq⟩
  · rw [hdist] at hlo hhi
    exact .inr ⟨i, hi, by simpa using hlt, hlo, hhi⟩

theorem xorBucketIndex_lt (localID remote : NodeID) :
    (xorBucketIndex localID remote).toNat < 160 := by
  rcases xorBucketIndex_spec localID remote with ⟨h, -⟩ | ⟨i, h, hlt, -⟩
  · rw [h]; decide
  · rw [h]; simpa using hlt

/-! ## Operations -/

def newRoutingTable (localID : Bytes) (maxNodes : UInt64) : RoutingTable where
  localID := NodeID.ofBytes localID
  buckets := Vector.replicate 160 []
  -- `int(maxNodes)` reads the unsigned number as a signed one
  maxNodes := if maxNodes.toInt64.toInt < kBucketSize then kBucketSize else maxNodes.toInt64.toInt
  size := 0

/-- The refresh of the node at position `i`: it is updated in place, the nodes
    before it move back by one, and it is written to the front. -/
def refreshAt (bucket : List RoutingNode) (i : Nat) (node : RoutingNode) : List RoutingNode :=
  let bucket := bucket.modify i fun n => { n with addr := node.addr, lastSeen := node.lastSeen }
  let bucket := copySlice bucket 1 (i + 1) (bucket.take i)
  bucket.set 0 node

/-- `Add` once the bucket is known: the part under the lock. -/
def RoutingTable.addToBucket (t : RoutingTable) (index : Fin 160) (node : RoutingNode) :
    RoutingTable × Bool :=
  match t.buckets[index].findIdx? (fun n => n.id = node.id) with
  | some i => ({ t with buckets := t.buckets.set index (refreshAt t.buckets[index] i node) }, false)
  | none =>
    if kBucketSize ≤ t.buckets[index].length then
      ({ t with
          buckets := t.buckets.set index (node :: t.buckets[index].take (kBucketSize - 1)) }, true)
    else if t.maxNodes ≤ t.size then (t, false)
    else
      ({ t with
          buckets := t.buckets.set index (node :: t.buckets[index]), size := t.size + 1 }, true)

def RoutingTable.add (t : RoutingTable) (id : Bytes) (addr : AddrPort) (seen : Int) :
    RoutingTable × Bool :=
  if id.length ≠ 20 ∨ addr.isValid = false ∨ addr.port = 0 then (t, false)
  else if xorBucketIndex t.localID (NodeID.ofBytes id) < 0 then (t, false)
  else
    t.addToBucket
      ⟨(xorBucketIndex t.localID (NodeID.ofBytes id)).toNat, xorBucketIndex_lt _ _⟩
      ⟨NodeID.ofBytes id, addr, seen⟩

/-- The nodes of all buckets, lowest bucket first. -/
def RoutingTable.snapshot (t : RoutingTable) : List RoutingNode := t.buckets.toList.flatten

/-- One pass over a bucket: the nodes kept so far, and the size after the removals so far. -/
def pruneStep (before : Int) (acc : List RoutingNode × Int) (node : RoutingNode) :
    List RoutingNode × Int :=
  if before < node.lastSeen then (acc.1 ++ [node], acc.2) else (acc.1, acc.2 - 1)

/-- The inner loop of `Prune` over one bucket. -/
def pruneBucket (before : Int) (bucket : List RoutingNode) (size : Int) :
    List RoutingNode × Int :=
  bucket.foldl (pruneStep before) ([], size)

/-- The outer loop of `Prune` over the buckets from some position on. -/
def pruneBuckets (before : Int) : List (List RoutingNode) → Int → List (List RoutingNode) × Int
  | [], size => ([], size)
  | bucket :: rest, size =>
    let (kept, size) := pruneBucket before bucket size
    let (rest, size) := pruneBuckets before rest size
    (kept :: rest, size)

/-- The nodes of a bucket that are more recent than `before`. -/
def recent (before : Int) (bucket : List RoutingNode) : List RoutingNode :=
  bucket.filter fun n => before < n.lastSeen

theorem foldl_pruneStep (before : Int) (bucket kept : List RoutingNode) (size : Int) :
    bucket.foldl (pruneStep before) (kept, size) =
      (kept ++ recent before bucket, size - bucket.length + (recent before bucket).length) := by
  induction bucket generalizing kept size with
  | nil => simp [recent]
  | cons n bucket ih =>
    rw [List.foldl_cons]
    by_cases h : before < n.lastSeen
    · have hrec : recent before (n :: bucket) = n :: recent before bucket := by
        simp [recent, h]
      simp only [pruneStep, h, if_true, ih, hrec, List.append_assoc, List.singleton_append,
        List.length_cons]
      congr 1
      omega
    · have hrec : recent before (n :: bucket) = recent before bucket := by
        simp [recent, h]
      simp only [pruneStep, h, if_false, ih, hrec, List.length_cons]
      congr 1
      omega

theorem pruneBuckets_eq (before : Int) (buckets : List (List RoutingNode)) (size : Int) :
    pruneBuckets before buckets size =
      (buckets.map (recent before),
        size - buckets.flatten.length + (buckets.map (recent before)).flatten.length) := by
  induction buckets generalizing size with
  | nil => simp [pruneBuckets]
  | cons bucket rest ih =>
    simp only [pruneBuckets, pruneBucket, foldl_pruneStep, List.nil_append, ih, List.map_cons,
      List.flatten_cons, List.length_append]
    congr 1
    omega

theorem length_pruneBuckets (before : Int) (buckets : List (List RoutingNode)) (size : Int) :
    (pruneBuckets before buckets size).1.length = buckets.length := by
  simp [pruneBuckets_eq]

def RoutingTable.prune (t : RoutingTable) (before : Int) : RoutingTable :=
  { t with
    buckets := ⟨(pruneBuckets before t.buckets.toList t.size).1.toArray, by
      simp [length_pruneBuckets]⟩
    size := (pruneBuckets before t.buckets.toList t.size).2 }

def RoutingTable.containsAddr (t : RoutingTable) (addr : AddrPort) : Bool :=
  t.buckets.toList.any fun bucket => bucket.any fun node => node.addr = addr

/-- The loop of `xorLess` from some position on. -/
def xorLessFrom : Bytes → Bytes → Bytes → Bool
  | a :: as, b :: bs, t :: ts =>
    let da := a ^^^ t
    let db := b ^^^ t
    if da ≠ db then da < db else xorLessFrom as bs ts
  | _, _, _ => false

def xorLess (a b target : NodeID) : Bool := xorLessFrom a.toList b.toList target.toList

/-- The nodes have different IDs, so there is one order only that `sort.Slice` can give them. -/
def RoutingTable.closest (t : RoutingTable) (target : Bytes) (limit : Nat) : List RoutingNode :=
  (t.snapshot.mergeSort fun m n => !xorLess n.id m.id (NodeID.ofBytes target)).take limit

/-! ## What one operation does -/

/-- `id` belongs into bucket `i` of a table with this local ID. -/
def InBucket (localID : NodeID) (i : Nat) (id : NodeID) : Prop :=
  2 ^ i ≤ id.distance localID ∧ id.distance localID < 2 ^ (i + 1)

theorem refreshAt_eq {bucket : List RoutingNode} {i : Nat} (hi : i < bucket.length)
    (node : RoutingNode) : refreshAt bucket i node = node :: bucket.eraseIdx i := by
  obtain ⟨l₁, n, l₂, rfl, rfl⟩ : ∃ l₁ n l₂, bucket = l₁ ++ n :: l₂ ∧ i = l₁.length :=
    ⟨bucket.take i, bucket[i], bucket.drop (i + 1), by simp, by simp; omega⟩
  have hmod : (l₁ ++ n :: l₂).modify l₁.length
      (fun n => { n with addr := node.addr, lastSeen := node.lastSeen }) =
      l₁ ++ { n with addr := node.addr, lastSeen := node.lastSeen } :: l₂ := by
    rw [List.modify_eq_take_cons_drop (by simp)]
    simp
  have herase : (l₁ ++ n :: l₂).eraseIdx l₁.length = l₁ ++ l₂ := by
    rw [List.eraseIdx_append_of_length_le (Nat.le_refl _)]
    simp
  unfold refreshAt copySlice
  rw [hmod, herase]
  cases l₁ with
  | nil => simp
  | cons first l₁ => simp [Nat.add_comm 1]

/-- What `Add` does to the bucket of a node: the node is refreshed, it takes the place
    of the last node of a full bucket, it is refused for want of room, or the table grows. -/
theorem RoutingTable.addToBucket_cases (t : RoutingTable) {i : Nat} (hi : i < 160)
    (node : RoutingNode) :
    (∃ j : Nat, ∃ hj : j < t.buckets[i].length, t.buckets[i][j].id = node.id ∧
        (t.addToBucket ⟨i, hi⟩ node).1 =
          { t with buckets := t.buckets.set i (node :: t.buckets[i].eraseIdx j) }) ∨
      (∀ n ∈ t.buckets[i], n.id ≠ node.id) ∧
        (kBucketSize ≤ t.buckets[i].length ∧
            (t.addToBucket ⟨i, hi⟩ node).1 =
              { t with buckets := t.buckets.set i (node :: t.buckets[i].take (kBucketSize - 1)) } ∨
          (t.addToBucket ⟨i, hi⟩ node).1 = t ∨
          t.buckets[i].length < kBucketSize ∧ t.size < t.maxNodes ∧
            (t.addToBucket ⟨i, hi⟩ node).1 =
              { t with buckets := t.buckets.set i (node :: t.buckets[i]), size := t.size + 1 }) := by
  unfold RoutingTable.addToBucket
  dsimp only [Fin.getElem_fin]
  cases hfind : t.buckets[i].findIdx? (fun n => n.id = node.id) with
  | some j =>
    obtain ⟨hj, hid, -⟩ := List.findIdx?_eq_some_iff_getElem.1 hfind
    refine .inl ⟨j, hj, by simpa using hid, ?_⟩
    simp only [refreshAt_eq hj]
  | none =>
    refine .inr ⟨fun n hn => ?_, ?_⟩
    · simpa using List.findIdx?_eq_none_iff.1 hfind n hn
    · dsimp only
      split
      · next hfull => exact .inl ⟨hfull, rfl⟩
      · next hroom =>
        split
        · exact .inr (.inl rfl)
        · next hsize =>
          exact .inr (.inr ⟨Nat.lt_of_not_le hroom, Int.lt_of_not_ge hsize, rfl⟩)

/-- `Add` changes nothing, or it puts a node into the bucket it belongs to. -/
theorem RoutingTable.add_cases (t : RoutingTable) (id : Bytes) (addr : AddrPort) (seen : Int) :
    (t.add id addr seen).1 = t ∨
    ∃ (i : Nat) (hi : i < 160) (node : RoutingNode), node.lastSeen = seen ∧
      InBucket t.localID i node.id ∧ t.add id addr seen = t.addToBucket ⟨i, hi⟩ node := by
  unfold RoutingTable.add
  split
  · exact .inl rfl
  split
  · exact .inl rfl
  next hneg =>
  rcases xorBucketIndex_spec t.localID (NodeID.ofBytes id) with ⟨h, -⟩ | ⟨i, h, hi, hlo, hhi⟩
  · rw [h] at hneg
    exact absurd (by decide) hneg
  · have htoNat : (xorBucketIndex t.localID (NodeID.ofBytes id)).toNat = i := by rw [h]; rfl
    refine .inr ⟨i, hi, ⟨NodeID.ofBytes id, addr, seen⟩, rfl, ⟨hlo, hhi⟩, ?_⟩
    simp only [htoNat]

theorem RoutingTable.toList_prune_buckets (t : RoutingTable) (before : Int) :
    (t.prune before).buckets.toList = t.buckets.toList.map (recent before) := by
  simp [RoutingTable.prune, pruneBuckets_eq, Vector.toList]

theorem RoutingTable.prune_buckets_getElem (t : RoutingTable) (before : Int) {i : Nat}
    (hi : i < 160) : (t.prune before).buckets[i] = recent before t.buckets[i] := by
  have h := t.toList_prune_buckets before
  have hget : (t.prune before).buckets.toList[i]? = (t.buckets.toList.map (recent before))[i]? := by
    rw [h]
  simpa [hi] using hget

theorem RoutingTable.prune_size (t : RoutingTable) (before : Int) :
    (t.prune before).size =
      t.size - t.snapshot.length + (t.prune before).snapshot.length := by
  rw [RoutingTable.snapshot, RoutingTable.snapshot, t.toList_prune_buckets before]
  simp [RoutingTable.prune, pruneBuckets_eq]

/-! ## Representation invariant -/

/-- The representation invariant, bucket by bucket. -/
structure RoutingTable.Inv (t : RoutingTable) : Prop where
  size_eq : t.size = t.snapshot.length
  size_le : t.size ≤ t.maxNodes
  length_le : ∀ i (h : i < 160), t.buckets[i].length ≤ kBucketSize
  nodup : ∀ i (h : i < 160), (t.buckets[i].map RoutingNode.id).Nodup
  placed : ∀ i (h : i < 160), ∀ n ∈ t.buckets[i], InBucket t.localID i n.id

theorem length_flatten_set {α : Type*} {L : List (List α)} {i : Nat} (h : i < L.length)
    (l : List α) : (L.set i l).flatten.length + L[i].length = L.flatten.length + l.length := by
  induction L generalizing i with
  | nil => simp at h
  | cons b L ih =>
    cases i with
    | zero =>
      simp only [List.set_cons_zero, List.flatten_cons, List.length_append, List.getElem_cons_zero]
      omega
    | succ i =>
      have := ih (i := i) (by simpa using h)
      simp only [List.set_cons_succ, List.flatten_cons, List.length_append,
        List.getElem_cons_succ]
      omega

theorem RoutingTable.mem_snapshot {t : RoutingTable} {n : RoutingNode} :
    n ∈ t.snapshot ↔ ∃ i, ∃ h : i < 160, n ∈ t.buckets[i] := by
  simp only [RoutingTable.snapshot, List.mem_flatten]
  constructor
  · rintro ⟨b, hb, hn⟩
    obtain ⟨i, hi, rfl⟩ := List.mem_iff_getElem.1 hb
    exact ⟨i, by simpa using hi, by simpa using hn⟩
  · rintro ⟨i, hi, hn⟩
    exact ⟨t.buckets[i], by simp, hn⟩

theorem RoutingTable.mem_addToBucket {t : RoutingTable} {i : Nat} (hi : i < 160)
    {node n : RoutingNode} (hn : n ∈ (t.addToBucket ⟨i, hi⟩ node).1.snapshot) :
    n = node ∨ n ∈ t.snapshot := by
  have hset : ∀ {rest : List RoutingNode} {size : Int}, rest ⊆ t.buckets[i] →
      n ∈ RoutingTable.snapshot
        { t with buckets := t.buckets.set i (node :: rest), size := size } →
      n = node ∨ n ∈ t.snapshot := by
    intro rest size hrest hmem
    obtain ⟨j, hj, hmem⟩ := RoutingTable.mem_snapshot.1 hmem
    dsimp only at hmem
    rw [Vector.getElem_set hi hj] at hmem
    split at hmem
    · exact (List.mem_cons.1 hmem).imp_right fun h =>
        RoutingTable.mem_snapshot.2 ⟨i, hi, hrest h⟩
    · exact .inr (RoutingTable.mem_snapshot.2 ⟨j, hj, hmem⟩)
  rcases t.addToBucket_cases hi node with ⟨j, -, -, h⟩ | ⟨-, ⟨-, h⟩ | h | ⟨-, -, h⟩⟩
  · exact hset (List.eraseIdx_subset) (h ▸ hn)
  · exact hset (List.take_subset _ _) (h ▸ hn)
  · exact .inr (h ▸ hn)
  · exact hset (List.Subset.refl _) (h ▸ hn)

/-- `Add` puts no node into the table but one with the given address. -/
theorem RoutingTable.mem_add {t : RoutingTable} {id : Bytes} {addr : AddrPort} {seen : Int}
    {n : RoutingNode} (hn : n ∈ (t.add id addr seen).1.snapshot) :
    n.addr = addr ∨ n ∈ t.snapshot := by
  unfold RoutingTable.add at hn
  split at hn
  · exact .inr hn
  split at hn
  · exact .inr hn
  · refine (RoutingTable.mem_addToBucket _ hn).imp_left ?_
    rintro rfl
    rfl

theorem RoutingTable.mem_prune {t : RoutingTable} {before : Int} {n : RoutingNode}
    (hn : n ∈ (t.prune before).snapshot) : n ∈ t.snapshot := by
  obtain ⟨i, hi, hmem⟩ := RoutingTable.mem_snapshot.1 hn
  rw [t.prune_buckets_getElem before hi] at hmem
  exact RoutingTable.mem_snapshot.2 ⟨i, hi, List.mem_of_mem_filter hmem⟩

theorem newRoutingTable_inv (localID : Bytes) (maxNodes : UInt64) :
    (newRoutingTable localID maxNodes).Inv := by
  have hempty : ∀ i (h : i < 160), (newRoutingTable localID maxNodes).buckets[i] = [] := by
    intro i h
    simp [newRoutingTable]
  have hsnap : (newRoutingTable localID maxNodes).snapshot = [] := by
    simp [newRoutingTable, RoutingTable.snapshot]
  refine ⟨?_, ?_, ?_, ?_, ?_⟩
  · rw [hsnap]; rfl
  · by_cases h : maxNodes.toInt64.toInt < 8
    · simp [newRoutingTable, kBucketSize, h]
    · simp only [newRoutingTable, kBucketSize, Nat.cast_ofNat, h, if_false]
      omega
  · intro i h; rw [hempty i h]; exact Nat.zero_le _
  · intro i h; rw [hempty i h]; exact List.nodup_nil
  · intro i h n hn
    rw [hempty i h] at hn
    cases hn

/-- Putting a node in front of part of its bucket keeps the invariant, if the size is
    adjusted by what the bucket gained. -/
theorem RoutingTable.Inv.set {t : RoutingTable} (hinv : t.Inv) {i : Nat} (hi : i < 160)
    {node : RoutingNode} {rest : List RoutingNode} {size : Int}
    (hrest : List.Sublist rest t.buckets[i]) (hfresh : ∀ n ∈ rest, n.id ≠ node.id)
    (hplaced : InBucket t.localID i node.id) (hlen : rest.length + 1 ≤ kBucketSize)
    (hsize : size = t.size + (rest.length + 1) - t.buckets[i].length)
    (hmax : size ≤ t.maxNodes) :
    RoutingTable.Inv { t with buckets := t.buckets.set i (node :: rest), size := size } := by
  have hget : ∀ j (hj : j < 160), (t.buckets.set i (node :: rest))[j] =
      if i = j then node :: rest else t.buckets[j] := fun j hj => Vector.getElem_set hi hj
  refine ⟨?_, hmax, ?_, ?_, ?_⟩
  · have hflat := length_flatten_set (L := t.buckets.toList) (by simpa using hi) (node :: rest)
    have hold := hinv.size_eq
    simp only [RoutingTable.snapshot, Vector.toList_set hi, List.length_cons,
      Vector.getElem_toList] at hflat hold ⊢
    omega
  · intro j hj
    rw [hget j hj]
    split
    · simpa using hlen
    · exact hinv.length_le j hj
  · intro j hj
    rw [hget j hj]
    split
    · refine List.nodup_cons.2 ⟨?_, (hrest.map _).nodup (hinv.nodup i hi)⟩
      intro hmem
      obtain ⟨n, hn, hid⟩ := List.mem_map.1 hmem
      exact hfresh n hn hid
    · exact hinv.nodup j hj
  · intro j hj n hn
    rw [hget j hj] at hn
    split at hn
    · next hij =>
      subst hij
      rcases List.mem_cons.1 hn with rfl | hn
      · exact hplaced
      · exact hinv.placed i hi n (hrest.subset hn)
    · exact hinv.placed j hj n hn

theorem RoutingTable.Inv.addToBucket {t : RoutingTable} (hinv : t.Inv) {i : Nat} (hi : i < 160)
    {node : RoutingNode} (hplaced : InBucket t.localID i node.id) :
    (t.addToBucket ⟨i, hi⟩ node).1.Inv := by
  have hle := hinv.length_le i hi
  rcases t.addToBucket_cases hi node with ⟨j, hj, hid, h⟩ | ⟨hfresh, ⟨hfull, h⟩ | h | ⟨hroom, hsize, h⟩⟩
  · -- refresh: the other nodes of the bucket carry other IDs
    rw [h]
    have hlen := List.length_eraseIdx_add_one hj
    refine hinv.set hi (List.eraseIdx_sublist _ _) ?_ hplaced (by omega) (by omega) hinv.size_le
    intro n hn heq
    obtain ⟨k, hk, hkn⟩ := List.mem_iff_getElem.1 hn
    obtain ⟨k', hk', hne, hget⟩ : ∃ k', ∃ h' : k' < t.buckets[i].length, k' ≠ j ∧
        t.buckets[i][k'] = n := by
      rw [List.getElem_eraseIdx] at hkn
      split at hkn
      · exact ⟨k, by omega, by omega, hkn⟩
      · exact ⟨k + 1, by omega, by omega, hkn⟩
    have hinj := List.nodup_iff_injective_get.1 (hinv.nodup i hi)
    have hsame := @hinj ⟨k', by simpa using hk'⟩ ⟨j, by simpa using hj⟩ (by simp [hget, heq, hid])
    exact hne (by simpa using hsame)
  · rw [h]
    refine hinv.set hi (List.take_sublist _ _) ?_ hplaced ?_ ?_ hinv.size_le
    · exact fun n hn => hfresh n (List.mem_of_mem_take hn)
    · simp only [List.length_take, kBucketSize]
      omega
    · simp only [List.length_take, kBucketSize] at hle hfull ⊢
      omega
  · rw [h]; exact hinv
  · rw [h]
    exact hinv.set hi (List.Sublist.refl _) hfresh hplaced hroom (by omega) (by omega)

theorem RoutingTable.Inv.add {t : RoutingTable} (hinv : t.Inv) (id : Bytes) (addr : AddrPort)
    (seen : Int) : (t.add id addr seen).1.Inv := by
  rcases t.add_cases id addr seen with h | ⟨i, hi, node, -, hplaced, h⟩
  · rw [h]; exact hinv
  · rw [h]; exact hinv.addToBucket hi hplaced

theorem RoutingTable.Inv.prune {t : RoutingTable} (hinv : t.Inv) (before : Int) :
    (t.prune before).Inv := by
  have hsub : ∀ i (h : i < 160), List.Sublist (t.prune before).buckets[i] t.buckets[i] := by
    intro i h
    rw [t.prune_buckets_getElem before h]
    exact List.filter_sublist
  have hle : (t.prune before).snapshot.length ≤ t.snapshot.length := by
    rw [RoutingTable.snapshot, RoutingTable.snapshot, t.toList_prune_buckets before]
    generalize t.buckets.toList = L
    induction L with
    | nil => simp
    | cons b L ih =>
      have := List.length_filter_le (fun n : RoutingNode => decide (before < n.lastSeen)) b
      simp only [List.map_cons, List.flatten_cons, List.length_append, recent] at ih ⊢
      omega
  have hsize := t.prune_size before
  have hold := hinv.size_eq
  refine ⟨by omega, ?_, ?_, ?_, ?_⟩
  · have hmax : (t.prune before).maxNodes = t.maxNodes := rfl
    have := hinv.size_le
    omega
  · exact fun i h => (hsub i h).length_le.trans (hinv.length_le i h)
  · exact fun i h => ((hsub i h).map _).nodup (hinv.nodup i h)
  · exact fun i h n hn => hinv.placed i h n ((hsub i h).subset hn)

/-- No bucket but the one with its own index can hold a node. -/
theorem InBucket.index_eq {localID id : NodeID} {i j : Nat} (hi : InBucket localID i id)
    (hj : InBucket localID j id) : i = j := by
  have hij : i < j + 1 := (Nat.pow_lt_pow_iff_right (by omega)).1 (hi.1.trans_lt hj.2)
  have hji : j < i + 1 := (Nat.pow_lt_pow_iff_right (by omega)).1 (hj.1.trans_lt hi.2)
  omega

theorem RoutingTable.Inv.snapshot_nodup {t : RoutingTable} (hinv : t.Inv) :
    (t.snapshot.map RoutingNode.id).Nodup := by
  rw [RoutingTable.snapshot, List.map_flatten, List.nodup_flatten]
  constructor
  · intro l hl
    obtain ⟨b, hb, rfl⟩ := List.mem_map.1 hl
    obtain ⟨i, hi, rfl⟩ := List.mem_iff_getElem.1 hb
    simpa using hinv.nodup i (by simpa using hi)
  · rw [List.pairwise_iff_getElem]
    intro i j hi hj hij
    simp only [List.length_map, Vector.length_toList] at hi hj
    simp only [List.getElem_map, Vector.getElem_toList]
    -- one ID in two buckets would have two bucket indices
    intro x hx hx'
    obtain ⟨n, hn, rfl⟩ := List.mem_map.1 hx
    obtain ⟨n', hn', heq⟩ := List.mem_map.1 hx'
    have hplaced := hinv.placed j hj n' hn'
    rw [heq] at hplaced
    have := (hinv.placed i hi n hn).index_eq hplaced
    omega

theorem RoutingTable.Inv.ne_localID {t : RoutingTable} (hinv : t.Inv) {n : RoutingNode}
    (hn : n ∈ t.snapshot) : n.id ≠ t.localID := by
  obtain ⟨i, hi, hmem⟩ := RoutingTable.mem_snapshot.1 hn
  intro heq
  have hlo := (hinv.placed i hi n hmem).1
  have hzero : n.id.distance t.localID = 0 := by rw [heq, NodeID.distance, Nat.xor_self]
  have := Nat.two_pow_pos i
  omega

/-! ## Recency -/

/-- A bucket from most to least recently seen. -/
def ByRecency (bucket : List RoutingNode) : Prop :=
  bucket.Pairwise fun a b => b.lastSeen ≤ a.lastSeen

/-- All buckets are ordered by recency, and no node was seen after `now`. -/
structure RoutingTable.RecencyInv (t : RoutingTable) (now : Int) : Prop where
  sorted : ∀ i (h : i < 160), ByRecency t.buckets[i]
  seen_le : ∀ i (h : i < 160), ∀ n ∈ t.buckets[i], n.lastSeen ≤ now

theorem RoutingTable.RecencyInv.mono {t : RoutingTable} {now now' : Int}
    (h : t.RecencyInv now) (hle : now ≤ now') : t.RecencyInv now' :=
  ⟨h.sorted, fun i hi n hn => Int.le_trans (h.seen_le i hi n hn) hle⟩

theorem RoutingTable.RecencyInv.set {t : RoutingTable} {now : Int} (hrec : t.RecencyInv now)
    {i : Nat} (hi : i < 160) {node : RoutingNode} {rest : List RoutingNode} {size : Int}
    (hrest : List.Sublist rest t.buckets[i]) (hnode : now ≤ node.lastSeen) :
    RoutingTable.RecencyInv { t with buckets := t.buckets.set i (node :: rest), size := size }
      node.lastSeen := by
  have hget : ∀ j (hj : j < 160), (t.buckets.set i (node :: rest))[j] =
      if i = j then node :: rest else t.buckets[j] := fun j hj => Vector.getElem_set hi hj
  constructor
  · intro j hj
    rw [hget j hj]
    split
    · refine List.pairwise_cons.2 ⟨?_, (hrec.sorted i hi).sublist hrest⟩
      exact fun n hn => Int.le_trans (hrec.seen_le i hi n (hrest.subset hn)) hnode
    · exact hrec.sorted j hj
  · intro j hj n hn
    rw [hget j hj] at hn
    split at hn
    · rcases List.mem_cons.1 hn with rfl | hn
      · exact Int.le_refl _
      · exact Int.le_trans (hrec.seen_le i hi n (hrest.subset hn)) hnode
    · exact Int.le_trans (hrec.seen_le j hj n hn) hnode

theorem RoutingTable.RecencyInv.add {t : RoutingTable} {now : Int} (hrec : t.RecencyInv now)
    (id : Bytes) (addr : AddrPort) {seen : Int} (hseen : now ≤ seen) :
    (t.add id addr seen).1.RecencyInv seen := by
  rcases t.add_cases id addr seen with h | ⟨i, hi, node, rfl, -, h⟩
  · rw [h]; exact hrec.mono hseen
  · rw [h]
    rcases t.addToBucket_cases hi node with ⟨j, -, -, h⟩ | ⟨-, ⟨-, h⟩ | h | ⟨-, -, h⟩⟩
    · rw [h]; exact hrec.set hi (List.eraseIdx_sublist _ _) hseen
    · rw [h]; exact hrec.set hi (List.take_sublist _ _) hseen
    · rw [h]; exact hrec.mono hseen
    · rw [h]; exact hrec.set hi (List.Sublist.refl _) hseen

theorem RoutingTable.RecencyInv.prune {t : RoutingTable} {now : Int} (hrec : t.RecencyInv now)
    (before : Int) : (t.prune before).RecencyInv now := by
  constructor
  · intro i h
    rw [t.prune_buckets_getElem before h]
    exact (hrec.sorted i h).sublist List.filter_sublist
  · intro i h n hn
    rw [t.prune_buckets_getElem before h] at hn
    exact hrec.seen_le i h n (List.mem_of_mem_filter hn)

/-- The node that `Add` drops from a bucket ordered by recency: the bucket was full and
    none of its nodes was seen before. -/
theorem RoutingTable.add_evicts_least_recent {t : RoutingTable} (hinv : t.Inv) {j : Nat}
    (hj : j < 160) (hsorted : ByRecency t.buckets[j]) (id : Bytes) (addr : AddrPort)
    (seen : Int) {n : RoutingNode} (hn : n ∈ t.buckets[j])
    (hgone : ∀ m ∈ (t.add id addr seen).1.snapshot, m.id ≠ n.id) :
    t.buckets[j].length = kBucketSize ∧ ∀ m ∈ t.buckets[j], n.lastSeen ≤ m.lastSeen := by
  have hkept : ∀ t' : RoutingTable, (t.add id addr seen).1 = t' →
      (∃ m ∈ t'.buckets[j], m.id = n.id) → False := by
    rintro t' h ⟨m, hm, hid⟩
    exact hgone m (by rw [h]; exact RoutingTable.mem_snapshot.2 ⟨j, hj, hm⟩) hid
  rcases t.add_cases id addr seen with h | ⟨i, hi, node, -, -, h⟩
  · exact (hkept t h ⟨n, hn, rfl⟩).elim
  have h := congrArg Prod.fst h
  rcases t.addToBucket_cases hi node with ⟨k, hk, hid, h'⟩ | ⟨-, ⟨hfull, h'⟩ | h' | ⟨-, -, h'⟩⟩ <;>
    rw [h'] at h
  · -- a refresh keeps the other nodes and replaces one by a node with its ID
    refine (hkept _ h ?_).elim
    simp only [Vector.getElem_set hi hj]
    split
    · next hij =>
      subst hij
      obtain ⟨l, hl, rfl⟩ := List.mem_iff_getElem.1 hn
      by_cases hlk : l = k
      · subst hlk
        exact ⟨node, List.mem_cons_self, hid.symm⟩
      · refine ⟨_, List.mem_cons_of_mem _ (List.mem_eraseIdx_iff_getElem.2 ⟨l, hl, ?_, rfl⟩), rfl⟩
        exact hlk
    · exact ⟨n, hn, rfl⟩
  · have hlen := hinv.length_le i hi
    by_cases hij : i = j
    · subst hij
      refine ⟨by omega, ?_⟩
      -- `n` is the one node that `take` leaves out, the last of the bucket
      have hsplit := List.take_append_drop (kBucketSize - 1) t.buckets[i]
      have hdrop : n ∈ t.buckets[i].drop (kBucketSize - 1) := by
        rw [← hsplit] at hn
        rcases List.mem_append.1 hn with hn | hn
        · refine (hkept _ h ⟨n, ?_, rfl⟩).elim
          simp only [Vector.getElem_set_self]
          exact List.mem_cons_of_mem _ hn
        · exact hn
      have hone : (t.buckets[i].drop (kBucketSize - 1)).length = 1 := by
        simp only [List.length_drop, kBucketSize] at hlen hfull ⊢
        omega
      obtain ⟨last, hlast⟩ := List.length_eq_one_iff.1 hone
      rw [hlast, List.mem_singleton] at hdrop
      subst hdrop
      rw [hlast] at hsplit
      unfold ByRecency at hsorted
      rw [← hsplit] at hsorted ⊢
      intro m hm
      rcases List.mem_append.1 hm with hm | hm
      · exact (List.pairwise_append.1 hsorted).2.2 m hm n (List.mem_singleton.2 rfl)
      · obtain rfl := List.mem_singleton.1 hm
        exact Int.le_refl _
    · refine (hkept _ h ⟨n, ?_, rfl⟩).elim
      simp only [Vector.getElem_set_ne hi hj hij]
      exact hn
  · exact (hkept t h ⟨n, hn, rfl⟩).elim
  · refine (hkept _ h ⟨n, ?_, rfl⟩).elim
    simp only [Vector.getElem_set hi hj]
    split
    · next hij => subst hij; exact List.mem_cons_of_mem _ hn
    · exact hn

/-! ## Runs -/

/-- One call that changes a table. -/
inductive RoutingTable.Op where
  | add (id : Bytes) (addr : AddrPort) (seen : Int)
  | prune (before : Int)

def RoutingTable.apply (t : RoutingTable) : RoutingTable.Op → RoutingTable
  | .add id addr seen => (t.add id addr seen).1
  | .prune before => t.prune before

/-- The table after a sequence of calls. -/
def RoutingTable.run (t : RoutingTable) (ops : List RoutingTable.Op) : RoutingTable :=
  ops.foldl RoutingTable.apply t

/-- The seen times given to `Add`, in order. -/
def seenTimes (ops : List RoutingTable.Op) : List Int :=
  ops.filterMap fun
    | .add _ _ seen => some seen
    | .prune _ => none

theorem RoutingTable.Inv.run {t : RoutingTable} (hinv : t.Inv) (ops : List RoutingTable.Op) :
    (t.run ops).Inv ∧ (t.run ops).localID = t.localID ∧ (t.run ops).maxNodes = t.maxNodes := by
  induction ops generalizing t with
  | nil => exact ⟨hinv, rfl, rfl⟩
  | cons op ops ih =>
    cases op with
    | add id addr seen =>
      have hconst : (t.add id addr seen).1.localID = t.localID ∧
          (t.add id addr seen).1.maxNodes = t.maxNodes := by
        rcases t.add_cases id addr seen with h | ⟨i, hi, node, -, -, h⟩
        · rw [h]; exact ⟨rfl, rfl⟩
        · rw [h]
          rcases t.addToBucket_cases hi node with ⟨_, _, _, h⟩ | ⟨_, ⟨_, h⟩ | h | ⟨_, _, h⟩⟩ <;>
            rw [h] <;> exact ⟨rfl, rfl⟩
      obtain ⟨h, hl, hm⟩ := ih (hinv.add id addr seen)
      exact ⟨h, hl.trans hconst.1, hm.trans hconst.2⟩
    | prune before => exact ih (hinv.prune before)

theorem RoutingTable.RecencyInv.run {t : RoutingTable} {now : Int} (hrec : t.RecencyInv now)
    {ops : List RoutingTable.Op} (hmono : (now :: seenTimes ops).Pairwise (· ≤ ·)) :
    ∃ now', (t.run ops).RecencyInv now' := by
  induction ops generalizing t now with
  | nil => exact ⟨now, hrec⟩
  | cons op ops ih =>
    cases op with
    | add id addr seen =>
      have htimes : seenTimes (.add id addr seen :: ops) = seen :: seenTimes ops := rfl
      rw [htimes, List.pairwise_cons] at hmono
      exact ih (hrec.add id addr (hmono.1 seen List.mem_cons_self)) hmono.2
    | prune before => exact ih (hrec.prune before) hmono

theorem newRoutingTable_recencyInv (localID : Bytes) (maxNodes : UInt64) (now : Int) :
    (newRoutingTable localID maxNodes).RecencyInv now := by
  have hempty : ∀ i (h : i < 160), (newRoutingTable localID maxNodes).buckets[i] = [] := by
    intro i h
    simp [newRoutingTable]
  constructor
  · intro i h; rw [hempty i h]; exact List.Pairwise.nil
  · intro i h n hn; rw [hempty i h] at hn; cases hn

theorem newRoutingTable_maxNodes_le (localID : Bytes) (maxNodes : UInt64) :
    (newRoutingTable localID maxNodes).maxNodes ≤ max maxNodes.toNat kBucketSize := by
  have hsigned : maxNodes.toInt64.toInt ≤ maxNodes.toNat := by
    change maxNodes.toBitVec.toInt ≤ (maxNodes.toBitVec.toNat : Int)
    rw [BitVec.toInt_eq_toNat_cond]
    split <;> omega
  simp only [newRoutingTable]
  split <;> omega

/-- Everything a routing table promises, after any sequence of calls. -/
theorem RoutingTable.run_represents (localID : Bytes) (maxNodes : UInt64)
    (ops : List RoutingTable.Op) :
    let t := (newRoutingTable localID maxNodes).run ops
    t.localID = NodeID.ofBytes localID ∧
    t.size = (t.buckets.toList.map List.length).sum ∧
    (∀ b ∈ t.buckets.toList, b.length ≤ 8) ∧
    t.size ≤ max maxNodes.toNat 8 ∧
    (t.snapshot.map RoutingNode.id).Nodup ∧
    (∀ n ∈ t.snapshot, n.id ≠ t.localID) ∧
    (∀ i (h : i < 160), ∀ n ∈ t.buckets[i],
      2 ^ i ≤ n.id.distance t.localID ∧ n.id.distance t.localID < 2 ^ (i + 1)) ∧
    ((seenTimes ops).Pairwise (· ≤ ·) →
      (∀ b ∈ t.buckets.toList, b.Pairwise fun x y => y.lastSeen ≤ x.lastSeen) ∧
      ∀ id addr seen i (h : i < 160), ∀ n ∈ t.buckets[i],
        (∀ m ∈ (t.add id addr seen).1.snapshot, m.id ≠ n.id) →
        t.buckets[i].length = 8 ∧ ∀ m ∈ t.buckets[i], n.lastSeen ≤ m.lastSeen) := by
  intro t
  obtain ⟨hinv, hlocal, hmax⟩ := (newRoutingTable_inv localID maxNodes).run ops
  have hmem : ∀ b ∈ t.buckets.toList, ∃ i, ∃ h : i < 160, t.buckets[i] = b := by
    intro b hb
    obtain ⟨i, hi, rfl⟩ := List.mem_iff_getElem.1 hb
    exact ⟨i, by simpa using hi, by simp⟩
  refine ⟨hlocal, ?_, ?_, ?_, hinv.snapshot_nodup, fun n hn => hinv.ne_localID hn,
    hinv.placed, ?_⟩
  · rw [hinv.size_eq, RoutingTable.snapshot, List.length_flatten]
  · intro b hb
    obtain ⟨i, hi, rfl⟩ := hmem b hb
    exact hinv.length_le i hi
  · have hle := newRoutingTable_maxNodes_le localID maxNodes
    have hsize := hinv.size_le
    rw [hmax] at hsize
    exact Int.le_trans hsize hle
  · intro htimes
    -- a time before every call serves as the time the empty table was last touched
    obtain ⟨start, hstart⟩ : ∃ start : Int, ∀ x ∈ seenTimes ops, start ≤ x := by
      cases h : seenTimes ops with
      | nil => exact ⟨0, fun x hx => by cases hx⟩
      | cons x xs =>
        rw [h] at htimes
        refine ⟨x, fun y hy => ?_⟩
        rcases List.mem_cons.1 hy with rfl | hy
        · exact Int.le_refl _
        · exact (List.pairwise_cons.1 htimes).1 y hy
    obtain ⟨now, hrec⟩ := (newRoutingTable_recencyInv localID maxNodes start).run
      (List.pairwise_cons.2 ⟨hstart, htimes⟩)
    constructor
    · intro b hb
      obtain ⟨i, hi, rfl⟩ := hmem b hb
      exact hrec.sorted i hi
    · intro id addr seen i hi n hn hgone
      exact RoutingTable.add_evicts_least_recent hinv hi (hrec.sorted i hi) id addr seen hn hgone

end DhtClient
