-- SUMMARY: Closest is exact: it returns the nodes of the table that are nearest to the target by XOR distance, nearest first.
import LazyDhtc.DhtClient.RoutingTable
import LazyDhtc.Lib.Selection

/-!
# Closest nodes

`xorLess` compares byte by byte what `NodeID.distance` compares as one number of 160
bits. Since the nodes of a table have different IDs, they have different distances from
any target, and the sorted snapshot is strictly sorted.
-/

namespace DhtClient

/-! ## The order of distances -/

theorem beNat_cons_lt_cons {x y : UInt8} {xs ys : Bytes} (hlen : xs.length = ys.length) :
    beNat (x :: xs) < beNat (y :: ys) ↔ x < y ∨ x = y ∧ beNat xs < beNat ys := by
  have hxs := beNat_lt xs
  have hys := beNat_lt ys
  have hnum : x < y ↔ x.toNat < y.toNat := UInt8.lt_iff_toNat_lt
  have heq : x = y ↔ x.toNat = y.toNat := UInt8.toNat_inj.symm
  simp only [beNat, hnum, heq, hlen] at hxs ⊢
  rcases Nat.lt_trichotomy x.toNat y.toNat with h | h | h
  · -- the leading byte outweighs all that follow
    have hmul := Nat.mul_le_mul_right (256 ^ ys.length) (Nat.succ_le_of_lt h)
    rw [Nat.succ_mul] at hmul
    omega
  · rw [h]
    omega
  · have hmul := Nat.mul_le_mul_right (256 ^ ys.length) (Nat.succ_le_of_lt h)
    rw [Nat.succ_mul] at hmul
    omega

theorem beNat_inj {xs ys : Bytes} (hlen : xs.length = ys.length) (h : beNat xs = beNat ys) :
    xs = ys := by
  induction xs generalizing ys with
  | nil => exact (List.length_eq_zero_iff.1 hlen.symm).symm
  | cons x xs ih =>
    cases ys with
    | nil => simp at hlen
    | cons y ys =>
      have hlen' : xs.length = ys.length := by simpa using hlen
      have hlt : ¬beNat (x :: xs) < beNat (y :: ys) := by omega
      have hgt : ¬beNat (y :: ys) < beNat (x :: xs) := by omega
      rw [beNat_cons_lt_cons hlen'] at hlt
      rw [beNat_cons_lt_cons hlen'.symm] at hgt
      have hxy : x = y := by
        rcases Nat.lt_trichotomy x.toNat y.toNat with h | h | h
        · exact absurd (.inl (UInt8.lt_iff_toNat_lt.2 h)) hlt
        · exact UInt8.toNat_inj.1 h
        · exact absurd (.inl (UInt8.lt_iff_toNat_lt.2 h)) hgt
      subst hxy
      rw [ih hlen']
      simpa [beNat, hlen'] using h

theorem xorLessFrom_iff {as bs ts : Bytes} (ha : as.length = ts.length)
    (hb : bs.length = ts.length) :
    xorLessFrom as bs ts = true ↔ beNat (xorBytes as ts) < beNat (xorBytes bs ts) := by
  induction ts generalizing as bs with
  | nil =>
    obtain rfl := List.length_eq_zero_iff.1 ha
    obtain rfl := List.length_eq_zero_iff.1 hb
    simp [xorLessFrom, xorBytes]
  | cons t ts ih =>
    cases as with
    | nil => simp at ha
    | cons a as =>
    cases bs with
    | nil => simp at hb
    | cons b bs =>
      have ha' : as.length = ts.length := by simpa using ha
      have hb' : bs.length = ts.length := by simpa using hb
      have hlen : (xorBytes as ts).length = (xorBytes bs ts).length := by
        simp [xorBytes, ha', hb']
      have hcons : ∀ (x : UInt8) (xs : Bytes),
          xorBytes (x :: xs) (t :: ts) = (x ^^^ t) :: xorBytes xs ts := fun _ _ => rfl
      rw [hcons, hcons, beNat_cons_lt_cons hlen, ← ih ha' hb', xorLessFrom]
      by_cases hx : a ^^^ t = b ^^^ t
      · simp [hx, UInt8.lt_irrefl]
      · simp [hx]

/-- `xorLess` compares the distances from the target. -/
theorem xorLess_iff (a b target : NodeID) :
    xorLess a b target = true ↔ a.distance target < b.distance target := by
  rw [xorLess, xorLessFrom_iff (by simp) (by simp), beNat_xorBytes (by simp),
    beNat_xorBytes (by simp)]
  rfl

/-- Different IDs have different distances from a target. -/
theorem NodeID.distance_inj {a b target : NodeID} (h : a.distance target = b.distance target) :
    a = b := by
  have hnum : beNat a.toList = beNat b.toList := Nat.xor_left_injective h
  exact Vector.toList_inj.1 (beNat_inj (by simp) hnum)

/-! ## The selection -/

/-- The distance of a node from the first 20 bytes of a target. -/
def RoutingNode.distanceTo (target : Bytes) (n : RoutingNode) : Nat :=
  n.id.distance (NodeID.ofBytes target)

theorem RoutingTable.Inv.nodup_distanceTo {t : RoutingTable} (hinv : t.Inv) (target : Bytes) :
    (t.snapshot.map (RoutingNode.distanceTo target)).Nodup := by
  have hids := List.pairwise_map.1 hinv.snapshot_nodup
  exact List.pairwise_map.2 (hids.imp fun hne heq => hne (NodeID.distance_inj heq))

/-- A list sorted by `xorLess` as `sort.Slice` promises it has its nodes in strictly
    increasing distance from the target. -/
theorem RoutingTable.Inv.pairwise_distanceTo {t : RoutingTable} (hinv : t.Inv) {target : Bytes}
    {nodes : List RoutingNode} (hperm : nodes.Perm t.snapshot)
    (hsorted : nodes.Pairwise fun m n => xorLess n.id m.id (NodeID.ofBytes target) = false) :
    nodes.Pairwise fun m n => m.distanceTo target < n.distanceTo target := by
  refine pairwise_lt_of_pairwise_le (hsorted.imp fun {m n} h => ?_) ?_
  · rw [← Bool.not_eq_true, xorLess_iff, Nat.not_lt] at h
    exact h
  · exact (hperm.map _).nodup_iff.2 (hinv.nodup_distanceTo target)

theorem pairwise_mergeSort_xorLess (nodes : List RoutingNode) (target : NodeID) :
    (nodes.mergeSort fun m n => !xorLess n.id m.id target).Pairwise
      fun m n => xorLess n.id m.id target = false := by
  have hle : ∀ m n : RoutingNode, (!xorLess n.id m.id target) = true ↔
      m.id.distance target ≤ n.id.distance target := by
    intro m n
    rw [Bool.not_eq_true', ← Bool.not_eq_true, xorLess_iff, Nat.not_lt]
  refine (List.pairwise_mergeSort ?_ ?_ nodes).imp fun h => by simpa using h
  · intro a b c hab hbc
    exact (hle _ _).2 (Nat.le_trans ((hle _ _).1 hab) ((hle _ _).1 hbc))
  · intro a b
    rw [Bool.or_eq_true, hle, hle]
    exact Nat.le_total _ _

/-- Whichever way the snapshot is sorted, `Closest` is the beginning of it. -/
theorem RoutingTable.Inv.closest_eq {t : RoutingTable} (hinv : t.Inv) {target : Bytes}
    {nodes : List RoutingNode} (hperm : nodes.Perm t.snapshot)
    (hsorted : nodes.Pairwise fun m n => xorLess n.id m.id (NodeID.ofBytes target) = false)
    (limit : Nat) : t.closest target limit = nodes.take limit := by
  have hsort := hinv.pairwise_distanceTo (List.mergeSort_perm _ _)
    (pairwise_mergeSort_xorLess t.snapshot (NodeID.ofBytes target))
  have hnodes := hinv.pairwise_distanceTo hperm hsorted
  have heq := ((List.mergeSort_perm t.snapshot _).trans hperm.symm).eq_of_pairwise
    (fun m n _ _ hmn hnm => absurd hnm (Nat.lt_asymm hmn)) hsort hnodes
  rw [RoutingTable.closest, heq]

theorem RoutingTable.Inv.closest_smallest {t : RoutingTable} (hinv : t.Inv) (target : Bytes)
    (limit : Nat) :
    Smallest (RoutingNode.distanceTo target) t.snapshot limit (t.closest target limit) :=
  .take (List.mergeSort_perm _ _) (hinv.pairwise_distanceTo (List.mergeSort_perm _ _)
    (pairwise_mergeSort_xorLess t.snapshot (NodeID.ofBytes target))) limit

/-- In every table that calls of `Add` and `Prune` lead to, `Closest` returns the nearest
    nodes, as many as asked for or as there are, in the order of their distance. -/
theorem RoutingTable.closest_exact (localID : Bytes) (maxNodes : UInt64)
    (ops : List RoutingTable.Op) (target : Bytes) (limit : Nat) :
    let t := (newRoutingTable localID maxNodes).run ops
    let found := t.closest target limit
    (found.length : Int) = min (limit : Int) t.size ∧
    (found.map RoutingNode.id).Nodup ∧
    (∀ n ∈ found, n ∈ t.snapshot) ∧
    (found.Pairwise fun m n =>
      m.id.distance (NodeID.ofBytes target) < n.id.distance (NodeID.ofBytes target)) ∧
    ∀ n ∈ t.snapshot, n ∉ found → ∀ m ∈ found,
      m.id.distance (NodeID.ofBytes target) < n.id.distance (NodeID.ofBytes target) := by
  intro t found
  have hinv : t.Inv := ((newRoutingTable_inv localID maxNodes).run ops).1
  have hsel := hinv.closest_smallest target limit
  refine ⟨?_, ?_, hsel.mem, hsel.sorted, hsel.farther⟩
  · rw [hinv.size_eq, hsel.length_eq]
    omega
  · have hkeys := hsel.nodup_map
    rw [show RoutingNode.distanceTo target = (·.distance (NodeID.ofBytes target)) ∘ RoutingNode.id
      from rfl, ← List.map_map] at hkeys
    exact hkeys.of_map _

end DhtClient
