-- SUMMARY: The table of pending get_peers requests of an indexing service: its operations, their interleavings, and the invariant of every reachable state.
import LazyDhtc.DhtClient.Types
import LazyDhtc.Lib.GoMap
import LazyDhtc.Lib.Loop
import LazyDhtc.Lib.Transition

/-!
# Pending get_peers requests

A service remembers each `get_peers` query under its transaction ID until the
answer arrives, the query expires or its sending fails. Next to the table it keeps
the number of queries pending for each info hash, and a time before which nothing
can expire.
-/

namespace DhtClient

/-- A `[2]byte`. -/
abbrev TransactionID := UInt8 × UInt8

structure GetPeersEntry where
  infoHash : Bytes
  createdAt : Int
deriving DecidableEq

def maxPendingGetPeersRequests : Nat := 8192

def getPeersRequestTimeout : Int := seconds 15

def maxPendingRequestsPerInfoHash : UInt8 := 2

/-- The fields of an `IndexingService` that `requestsMu` guards, and the counters
    that the same functions raise. -/
structure Requests where
  counter : UInt16
  getPeersRequests : GoMap TransactionID GetPeersEntry
  pendingInfoHashes : GoMap Bytes UInt8
  /-- `none` is the zero time -/
  nextRequestExpiry : Option Int
  requestsRejected : Nat
  requestsDeduped : Nat
  requestsSendDropped : Nat

/-- The state that `NewIndexingService` sets up. -/
def newRequests : Requests := ⟨0, ∅, ∅, none, 0, 0, 0⟩

def uint16BE (v : UInt16) : TransactionID := ((v >>> 8).toUInt8, v.toUInt8)

/-- `copy(t[:], msg.T)` into a zeroed transaction ID. -/
def TransactionID.ofBytes : Bytes → TransactionID
  | [] => (0, 0)
  | [a] => (a, 0)
  | a :: b :: _ => (a, b)

namespace Requests

/-! ## Operations -/

/-- The number of table entries for an info hash. -/
def pendingFor (s : Requests) (infoHash : Bytes) : Nat :=
  s.getPeersRequests.count fun e => e.infoHash = infoHash

def removeGetPeersRequestLocked (s : Requests) (t : TransactionID) (entry : GetPeersEntry) :
    Requests :=
  let count := (s.pendingInfoHashes.lookup entry.infoHash).getD 0
  { s with
    getPeersRequests := s.getPeersRequests.erase t
    pendingInfoHashes :=
      if count ≤ 1 then s.pendingInfoHashes.erase entry.infoHash
      else s.pendingInfoHashes.insert entry.infoHash (count - 1) }

/-- The visit of one entry by the loop of `expireOldGetPeersRequestsLocked`. -/
def expireStep (cutoff : Int) (acc : Requests × Option Int)
    (e : (_ : TransactionID) × GetPeersEntry) : Requests × Option Int :=
  if ¬ cutoff < e.2.createdAt then (acc.1.removeGetPeersRequestLocked e.1 e.2, acc.2)
  else
    let expiresAt := e.2.createdAt + getPeersRequestTimeout
    match acc.2 with
    | none => (acc.1, some expiresAt)
    | some nextExpiry => (acc.1, some (if expiresAt < nextExpiry then expiresAt else nextExpiry))

/-- The loop visits the entries of the table in some `order`. -/
def expireOldGetPeersRequestsLocked (s : Requests) (now : Int)
    (order : List ((_ : TransactionID) × GetPeersEntry)) : Requests :=
  match s.nextRequestExpiry with
  | some expiry => if now < expiry then s else expireAll s now order
  | none => expireAll s now order
where
  expireAll (s : Requests) (now : Int) (order : List ((_ : TransactionID) × GetPeersEntry)) :
      Requests :=
    let (s, nextExpiry) := order.foldl (expireStep (now - getPeersRequestTimeout)) (s, none)
    { s with nextRequestExpiry := nextExpiry }

/-- The loop that looks for a free transaction ID: the ID found and the counter after
    it. With 65536 rounds of fuel it has tried every ID, and `none` means that the loop
    does not end. -/
def findTransactionID (table : GoMap TransactionID GetPeersEntry) (now : Int) :
    Nat → UInt16 → Option (TransactionID × UInt16)
  | 0, _ => none
  | fuel + 1, counter =>
    match table.lookup (uint16BE counter) with
    | none => some (uint16BE counter, counter + 1)
    | some entry =>
      if getPeersRequestTimeout ≤ now - entry.createdAt then
        some (uint16BE counter, counter + 1)
      else findTransactionID table now fuel (counter + 1)

/-- The first critical section of `requestPeers`: the transaction ID of the request it
    enters, if it enters one; `none` if it never leaves the section. -/
def requestPeersLocked (s : Requests) (infoHash : Bytes) (now : Int)
    (order : List ((_ : TransactionID) × GetPeersEntry)) :
    Option (Requests × Option TransactionID) :=
  let s := s.expireOldGetPeersRequestsLocked now order
  let pending := (s.pendingInfoHashes.lookup infoHash).getD 0
  if maxPendingRequestsPerInfoHash ≤ pending then
    some ({ s with requestsDeduped := s.requestsDeduped + 1 }, none)
  else if maxPendingGetPeersRequests ≤ s.getPeersRequests.len then
    some ({ s with requestsRejected := s.requestsRejected + 1 }, none)
  else
    match findTransactionID s.getPeersRequests now 65536 s.counter with
    | none => none
    | some (t, counter) =>
      let expiresAt := now + getPeersRequestTimeout
      some ({ s with
        counter := counter
        getPeersRequests := s.getPeersRequests.insert t ⟨infoHash, now⟩
        pendingInfoHashes := s.pendingInfoHashes.insert infoHash (pending + 1)
        nextRequestExpiry :=
          match s.nextRequestExpiry with
          | none => some expiresAt
          | some expiry => some (if expiresAt < expiry then expiresAt else expiry) }, some t)

/-- The second critical section of `requestPeers`, entered when the query could not be
    handed to the transport. -/
def rollbackLocked (s : Requests) (t : TransactionID) : Requests :=
  let s := match s.getPeersRequests.lookup t with
    | some entry => s.removeGetPeersRequestLocked t entry
    | none => s
  { s with requestsSendDropped := s.requestsSendDropped + 1 }

/-- The critical section of `onGetPeersResponse`: the entry it answers, if there is one. -/
def onGetPeersResponseLocked (s : Requests) (msgT : Bytes) : Requests × Option GetPeersEntry :=
  match s.getPeersRequests.lookup (TransactionID.ofBytes msgT) with
  | some entry =>
    (s.removeGetPeersRequestLocked (TransactionID.ofBytes msgT) entry, some entry)
  | none => (s, none)

/-! ## Invariant -/

/-- The per-hash counts agree with the table: a count is kept exactly for the info
    hashes with an entry. -/
def Counted (s : Requests) : Prop :=
  ∀ h, (s.pendingInfoHashes.lookup h).map UInt8.toNat =
    if s.pendingFor h = 0 then none else some (s.pendingFor h)

/-- `nextRequestExpiry` is not later than the expiry of any entry. -/
def ExpiryBound (s : Requests) : Prop :=
  ∀ t e, s.getPeersRequests.lookup t = some e →
    ∃ x, s.nextRequestExpiry = some x ∧ x ≤ e.createdAt + getPeersRequestTimeout

structure Inv (s : Requests) : Prop where
  counted : s.Counted
  pendingFor_le : ∀ h, s.pendingFor h ≤ 2
  len_le : s.getPeersRequests.len ≤ maxPendingGetPeersRequests
  expiryBound : s.ExpiryBound

theorem newRequests_inv : newRequests.Inv where
  counted h := by simp [newRequests, pendingFor]
  pendingFor_le h := by simp [newRequests, pendingFor]
  len_le := by simp [newRequests]
  expiryBound t e h := by simp [newRequests] at h

/-- The count read for an info hash, with `0` for a missing key. -/
theorem Counted.getD {s : Requests} (hs : s.Counted) (h : Bytes) :
    ((s.pendingInfoHashes.lookup h).getD 0).toNat = s.pendingFor h := by
  have := hs h
  cases hl : s.pendingInfoHashes.lookup h with
  | none =>
    rw [hl] at this
    by_cases hz : s.pendingFor h = 0
    · simp [hz]
    · simp [hz] at this
  | some n =>
    rw [hl] at this
    by_cases hz : s.pendingFor h = 0
    · simp [hz] at this
    · simpa [hz] using this

/-! ## Removing an entry -/

section Remove

variable (s : Requests) (t : TransactionID) (e : GetPeersEntry)

@[simp] theorem remove_nextRequestExpiry :
    (s.removeGetPeersRequestLocked t e).nextRequestExpiry = s.nextRequestExpiry := rfl

@[simp] theorem remove_getPeersRequests :
    (s.removeGetPeersRequestLocked t e).getPeersRequests = s.getPeersRequests.erase t := rfl

theorem lookup_pending_remove (h : Bytes) :
    (s.removeGetPeersRequestLocked t e).pendingInfoHashes.lookup h =
      if h = e.infoHash then
        if (s.pendingInfoHashes.lookup e.infoHash).getD 0 ≤ 1 then none
        else some ((s.pendingInfoHashes.lookup e.infoHash).getD 0 - 1)
      else s.pendingInfoHashes.lookup h := by
  simp only [removeGetPeersRequestLocked]
  split
  · next hone => simp [AList.lookup_erase_eq_ite]
  · next hmany => simp [AList.lookup_insert_eq_ite]

theorem lookup_remove (t' : TransactionID) :
    (s.removeGetPeersRequestLocked t e).getPeersRequests.lookup t' =
      if t' = t then none else s.getPeersRequests.lookup t' :=
  AList.lookup_erase_eq_ite _ _ _

theorem len_remove_le :
    (s.removeGetPeersRequestLocked t e).getPeersRequests.len ≤ s.getPeersRequests.len :=
  AList.len_erase_le _ _

end Remove

theorem pendingFor_remove {s : Requests} {t : TransactionID} {e : GetPeersEntry}
    (h : s.getPeersRequests.lookup t = some e) (infoHash : Bytes) :
    s.pendingFor infoHash = (s.removeGetPeersRequestLocked t e).pendingFor infoHash +
      if e.infoHash = infoHash then 1 else 0 := by
  have := AList.count_erase_of_lookup h fun e => decide (e.infoHash = infoHash)
  simpa only [pendingFor, remove_getPeersRequests, decide_eq_true_eq] using this

theorem Counted.remove {s : Requests} (hs : s.Counted) {t : TransactionID} {e : GetPeersEntry}
    (h : s.getPeersRequests.lookup t = some e) : (s.removeGetPeersRequestLocked t e).Counted := by
  intro infoHash
  have hpend := pendingFor_remove h infoHash
  have hcount := hs.getD e.infoHash
  rw [lookup_pending_remove]
  by_cases heq : infoHash = e.infoHash
  · subst heq
    rw [if_pos rfl] at hpend ⊢
    generalize (s.pendingInfoHashes.lookup e.infoHash).getD 0 = count at hcount ⊢
    by_cases hone : count ≤ 1
    · -- the last entry of this info hash goes, and with it the key
      have hle : count.toNat ≤ 1 := UInt8.le_iff_toNat_le.1 hone
      rw [if_pos hone, if_pos (by omega)]
      rfl
    · have hlt : 1 < count.toNat := UInt8.lt_iff_toNat_lt.1 (UInt8.not_le.1 hone)
      have hsub : (count - 1).toNat = count.toNat - 1 :=
        UInt8.toNat_sub_of_le _ _ (UInt8.le_of_lt (UInt8.not_le.1 hone))
      rw [if_neg hone, if_neg (by omega), Option.map_some]
      congr 1
      omega
  · rw [if_neg (Ne.symm heq)] at hpend
    rw [if_neg heq, hs infoHash, hpend, Nat.add_zero]

theorem pendingFor_remove_le {s : Requests} {t : TransactionID} {e : GetPeersEntry}
    (h : s.getPeersRequests.lookup t = some e) (infoHash : Bytes) :
    (s.removeGetPeersRequestLocked t e).pendingFor infoHash ≤ s.pendingFor infoHash := by
  have := pendingFor_remove h infoHash
  omega

theorem Inv.remove {s : Requests} (hs : s.Inv) {t : TransactionID} {e : GetPeersEntry}
    (h : s.getPeersRequests.lookup t = some e) : (s.removeGetPeersRequestLocked t e).Inv where
  counted := hs.counted.remove h
  pendingFor_le infoHash := (pendingFor_remove_le h infoHash).trans (hs.pendingFor_le infoHash)
  len_le := (len_remove_le s t e).trans hs.len_le
  expiryBound t' e' h' := by
    rw [lookup_remove] at h'
    split at h'
    · cases h'
    · exact hs.expiryBound t' e' h'

/-! ## Expiry -/

/-- What the loop of `expireOldGetPeersRequestsLocked` has done after visiting `order`:
    it has removed the old entries among those visited, and its time bounds the expiry of
    the others. -/
structure Expired (s : Requests) (cutoff : Int)
    (order : List ((_ : TransactionID) × GetPeersEntry)) (acc : Requests × Option Int) : Prop where
  counted : acc.1.Counted
  pendingFor_le : ∀ h, acc.1.pendingFor h ≤ s.pendingFor h
  len_le : acc.1.getPeersRequests.len ≤ s.getPeersRequests.len
  lookup : ∀ t e, acc.1.getPeersRequests.lookup t = some e ↔
    s.getPeersRequests.lookup t = some e ∧ (⟨t, e⟩ ∈ order → cutoff < e.createdAt)
  bound : ∀ e ∈ order, cutoff < e.2.createdAt →
    ∃ x, acc.2 = some x ∧ x ≤ e.2.createdAt + getPeersRequestTimeout

theorem Expired.step {s : Requests} {cutoff : Int}
    {order : List ((_ : TransactionID) × GetPeersEntry)} {acc : Requests × Option Int}
    (h : Expired s cutoff order acc) {e : (_ : TransactionID) × GetPeersEntry}
    (hmem : s.getPeersRequests.lookup e.1 = some e.2) (hnew : e ∉ order) :
    Expired s cutoff (order ++ [e]) (expireStep cutoff acc e) := by
  have hacc : acc.1.getPeersRequests.lookup e.1 = some e.2 :=
    (h.lookup e.1 e.2).2 ⟨hmem, fun hin => (hnew hin).elim⟩
  by_cases hold : cutoff < e.2.createdAt
  · obtain ⟨x, hx, hxle, hxacc⟩ : ∃ x, expireStep cutoff acc e = (acc.1, some x) ∧
        x ≤ e.2.createdAt + getPeersRequestTimeout ∧ ∀ y, acc.2 = some y → x ≤ y := by
      simp only [expireStep, hold, not_true, if_false]
      cases hn : acc.2 with
      | none => exact ⟨_, rfl, Int.le_refl _, by simp⟩
      | some n =>
        refine ⟨_, rfl, ?_, fun y hy => ?_⟩
        · split <;> omega
        · rw [← Option.some.inj hy]
          split <;> omega
    rw [hx]
    refine ⟨h.counted, h.pendingFor_le, h.len_le, fun t e' => ?_, fun e' he' hlt => ?_⟩
    · rw [h.lookup t e', List.mem_append, List.mem_singleton]
      constructor
      · rintro ⟨hs, hk⟩
        refine ⟨hs, fun hin => hin.elim hk ?_⟩
        rintro rfl
        exact hold
      · exact fun ⟨hs, hk⟩ => ⟨hs, fun hin => hk (.inl hin)⟩
    · rcases List.mem_append.1 he' with he' | he'
      · obtain ⟨y, hy, hyle⟩ := h.bound e' he' hlt
        exact ⟨x, rfl, Int.le_trans (hxacc y hy) hyle⟩
      · rw [List.mem_singleton.1 he']
        exact ⟨x, rfl, hxle⟩
  · have hx : expireStep cutoff acc e = (acc.1.removeGetPeersRequestLocked e.1 e.2, acc.2) := by
      simp [expireStep, hold]
    rw [hx]
    refine ⟨h.counted.remove hacc, fun ih => ?_, (len_remove_le _ _ _).trans h.len_le,
      fun t e' => ?_, fun e' he' hlt => ?_⟩
    · exact (pendingFor_remove_le hacc ih).trans (h.pendingFor_le ih)
    · rw [lookup_remove, List.mem_append, List.mem_singleton]
      by_cases ht : t = e.1
      · subst ht
        rw [if_pos rfl]
        constructor
        · simp
        · rintro ⟨hs, hk⟩
          have he : e.2 = e' := Option.some.inj (hmem.symm.trans hs)
          exact (hold (he ▸ hk (.inr (by rw [← he])))).elim
      · rw [if_neg ht, h.lookup t e']
        constructor
        · rintro ⟨hs, hk⟩
          refine ⟨hs, fun hin => hin.elim hk fun heq => ?_⟩
          exact (ht (congrArg Sigma.fst heq)).elim
        · exact fun ⟨hs, hk⟩ => ⟨hs, fun hin => hk (.inl hin)⟩
    · rcases List.mem_append.1 he' with he' | he'
      · exact h.bound e' he' hlt
      · rw [List.mem_singleton.1 he'] at hlt
        exact (hold hlt).elim

theorem Expired.foldl {s : Requests} {cutoff : Int}
    (order : List ((_ : TransactionID) × GetPeersEntry))
    {done : List ((_ : TransactionID) × GetPeersEntry)} {acc : Requests × Option Int}
    (h : Expired s cutoff done acc)
    (hmem : ∀ e ∈ order, s.getPeersRequests.lookup e.1 = some e.2)
    (hnodup : (done ++ order).Nodup) :
    Expired s cutoff (done ++ order) (order.foldl (expireStep cutoff) acc) := by
  induction order generalizing done acc with
  | nil => simpa using h
  | cons e order ih =>
    have hnew : e ∉ done := fun hin =>
      (List.nodup_append.1 hnodup).2.2 e hin e List.mem_cons_self rfl
    have hstep := h.step (hmem e List.mem_cons_self) hnew
    have := ih hstep (fun e' he' => hmem e' (List.mem_cons_of_mem _ he')) (by simpa using hnodup)
    simpa using this

/-- Expiring keeps the invariant and leaves no entry that is 15 seconds old. -/
theorem Inv.expire {s : Requests} (hs : s.Inv) (now : Int)
    {order : List ((_ : TransactionID) × GetPeersEntry)}
    (horder : order.Perm s.getPeersRequests.entries) :
    (s.expireOldGetPeersRequestsLocked now order).Inv ∧
    ∀ t e, (s.expireOldGetPeersRequestsLocked now order).getPeersRequests.lookup t = some e ↔
      s.getPeersRequests.lookup t = some e ∧ now - getPeersRequestTimeout < e.createdAt := by
  have hmem : ∀ t e, ⟨t, e⟩ ∈ order ↔ s.getPeersRequests.lookup t = some e := fun t e =>
    horder.mem_iff.trans AList.mem_entries_iff
  have hall : (expireOldGetPeersRequestsLocked.expireAll s now order).Inv ∧
      ∀ t e, (expireOldGetPeersRequestsLocked.expireAll s now order).getPeersRequests.lookup t =
          some e ↔
        s.getPeersRequests.lookup t = some e ∧ now - getPeersRequestTimeout < e.createdAt := by
    have hstart : Expired s (now - getPeersRequestTimeout) [] (s, none) :=
      ⟨hs.counted, fun _ => Nat.le_refl _, Nat.le_refl _, fun t e => by simp,
        fun e he => by cases he⟩
    have hnodup : order.Nodup :=
      horder.nodup_iff.2 (List.NodupKeys.nodup s.getPeersRequests.nodupKeys)
    have h := hstart.foldl order (fun e he => (hmem e.1 e.2).1 he) (by simpa using hnodup)
    simp only [List.nil_append] at h
    simp only [expireOldGetPeersRequestsLocked.expireAll]
    generalize order.foldl _ (s, none) = acc at h ⊢
    have hlookup : ∀ t e, acc.1.getPeersRequests.lookup t = some e ↔
        s.getPeersRequests.lookup t = some e ∧ now - getPeersRequestTimeout < e.createdAt := by
      intro t e
      rw [h.lookup t e]
      exact and_congr_right fun hin => ⟨fun hk => hk ((hmem t e).2 hin), fun hk _ => hk⟩
    refine ⟨⟨h.counted, fun ih => (h.pendingFor_le ih).trans (hs.pendingFor_le ih),
      h.len_le.trans hs.len_le, fun t e hin => ?_⟩, hlookup⟩
    have hin' := (hlookup t e).1 hin
    exact h.bound ⟨t, e⟩ ((hmem t e).2 hin'.1) hin'.2
  unfold expireOldGetPeersRequestsLocked
  cases hx : s.nextRequestExpiry with
  | none => exact hall
  | some x =>
    dsimp only
    split
    · next hearly =>
      -- nothing can expire before `x`
      refine ⟨hs, fun t e => ⟨fun hin => ⟨hin, ?_⟩, fun hin => hin.1⟩⟩
      obtain ⟨y, hy, hle⟩ := hs.expiryBound t e hin
      rw [hx] at hy
      cases hy
      omega
    · exact hall

/-! ## Finding a transaction ID -/

theorem uint16BE_injective : Function.Injective uint16BE := by
  intro a b h
  obtain ⟨hhigh, hlow⟩ := Prod.mk.inj h
  have hhigh := congrArg UInt8.toNat hhigh
  have hlow := congrArg UInt8.toNat hlow
  simp only [UInt16.toNat_toUInt8, UInt16.toNat_shiftRight, UInt16.reduceToNat,
    Nat.reduceMod, Nat.shiftRight_eq_div_pow] at hhigh hlow
  have ha := a.toNat_lt
  have hb := b.toNat_lt
  apply UInt16.toNat_inj.1
  omega

/-- An ID that the loop finds is free, or its entry is 15 seconds old. -/
theorem findTransactionID_spec {table : GoMap TransactionID GetPeersEntry} {now : Int}
    {fuel : Nat} {counter counter' : UInt16} {t : TransactionID}
    (h : findTransactionID table now fuel counter = some (t, counter')) :
    ∀ e, table.lookup t = some e → getPeersRequestTimeout ≤ now - e.createdAt := by
  induction fuel generalizing counter with
  | zero => simp [findTransactionID] at h
  | succ fuel ih =>
    unfold findTransactionID at h
    split at h
    · next hnone =>
      cases h
      intro e he
      rw [hnone] at he
      cases he
    · next entry hentry =>
      split at h
      · next hold =>
        cases h
        intro e he
        rw [hentry] at he
        cases he
        exact hold
      · exact ih h

/-- The variables of the loop: the ID it has tried last, and the counter. -/
structure IDSearch where
  t : TransactionID
  counter : UInt16

/-- One iteration of the loop, which has no bound of its own. -/
def IDSearch.body (table : GoMap TransactionID GetPeersEntry) (now : Int) (_ : Nat)
    (v : IDSearch) : Loop.Position IDSearch :=
  let v : IDSearch := ⟨uint16BE v.counter, v.counter + 1⟩
  match table.lookup v.t with
  | none => .left v
  | some entry => if getPeersRequestTimeout ≤ now - entry.createdAt then .left v else .head v

section Search

open Loop

variable {table : GoMap TransactionID GetPeersEntry} {now : Int}

theorem IDSearch.body_head {n : Nat} {u v : IDSearch} (h : body table now n u = .head v) :
    uint16BE u.counter ∈ table.keys ∧ v.counter = u.counter + 1 ∧
      ∀ fuel, findTransactionID table now (fuel + 1) u.counter =
        findTransactionID table now fuel v.counter := by
  unfold body at h
  dsimp only at h
  split at h
  · cases h
  · next entry hentry =>
    split at h
    · cases h
    · next hlive =>
      cases h
      refine ⟨AList.lookup_isSome.1 (by rw [hentry]; rfl), rfl, fun fuel => ?_⟩
      rw [findTransactionID, hentry]
      exact if_neg hlive

theorem IDSearch.body_left {n : Nat} {u v : IDSearch} (h : body table now n u = .left v) :
    v.counter = u.counter + 1 ∧
      ∀ fuel, findTransactionID table now (fuel + 1) u.counter = some (v.t, v.counter) := by
  unfold body at h
  dsimp only at h
  split at h
  · next hnone =>
    cases h
    refine ⟨rfl, fun fuel => ?_⟩
    rw [findTransactionID, hnone]
  · next entry hentry =>
    split at h
    · next hold =>
      cases h
      refine ⟨rfl, fun fuel => ?_⟩
      rw [findTransactionID, hentry]
      exact if_pos hold
    · cases h

/-- Back at its head after `n` iterations, the loop has raised the counter by `n`. -/
theorem IDSearch.run_head {n : Nat} {u v : IDSearch} (h : run (body table now) u n = .head v) :
    v.counter = u.counter + .ofNat n ∧ ∀ fuel,
      findTransactionID table now (n + fuel) u.counter = findTransactionID table now fuel v.counter := by
  induction n generalizing v with
  | zero =>
    cases h
    exact ⟨(UInt16.add_zero _).symm, fun fuel => by rw [Nat.zero_add]⟩
  | succ n ih =>
    obtain ⟨w, hw, hbody⟩ := head_of_head_succ h
    obtain ⟨hcounter, hfind⟩ := ih hw
    obtain ⟨-, hnext, hone⟩ := body_head hbody
    refine ⟨?_, fun fuel => ?_⟩
    · rw [hnext, hcounter, UInt16.add_assoc, UInt16.ofNat_add]
      rfl
    · rw [Nat.add_right_comm, Nat.add_assoc, hfind, hone]

/-- The loop leaves after at most one iteration more than the table has entries. -/
theorem IDSearch.leaves (hlen : table.len < 65536) (u : IDSearch) :
    ∃ n ≤ table.len, ∃ v w, run (body table now) u n = .head v ∧ body table now n v = .left w := by
  have hcard : table.keys.toFinset.card ≤ table.len :=
    (List.toFinset_card_le _).trans_eq (by simp [AList.keys, AList.len, List.keys])
  have hused : ∀ n w, run (body table now) u (n + 1) = .head w →
      uint16BE (u.counter + .ofNat n) ∈ table.keys.toFinset := by
    intro n w hw
    obtain ⟨v, hv, hbody⟩ := head_of_head_succ hw
    rw [← (run_head hv).1]
    exact List.mem_toFinset.2 (body_head hbody).1
  have hinj : Set.InjOn (fun i => uint16BE (u.counter + .ofNat i))
      (Set.Iic table.keys.toFinset.card) := by
    -- the counter comes back to an ID only after 65536 iterations
    intro i hi j hj hij
    rw [Set.mem_Iic] at hi hj
    have hsum : UInt16.ofNat i = UInt16.ofNat j :=
      (UInt16.add_right_inj u.counter).1 (uint16BE_injective hij)
    have hnat := congrArg UInt16.toNat hsum
    rw [UInt16.toNat_ofNat', UInt16.toNat_ofNat'] at hnat
    omega
  obtain ⟨n, hn, hleft⟩ := leaves_of_probes hused hinj
  exact ⟨n, hn.trans hcard, hleft⟩

end Search

/-- The loop ends while the table has fewer entries than there are IDs. -/
theorem findTransactionID_isSome {table : GoMap TransactionID GetPeersEntry}
    (hlen : table.len < 65536) (now : Int) (counter : UInt16) :
    ∃ r, findTransactionID table now 65536 counter = some r := by
  obtain ⟨n, hn, v, w, hhead, hleft⟩ := @IDSearch.leaves table now hlen ⟨(0, 0), counter⟩
  obtain ⟨fuel, hfuel⟩ : ∃ fuel, 65536 = n + (fuel + 1) := ⟨65535 - n, by omega⟩
  refine ⟨(w.t, w.counter), ?_⟩
  rw [hfuel, (IDSearch.run_head hhead).2, (IDSearch.body_left hleft).2]

/-! ## The critical sections -/

/-- A query entered under an ID that no entry has, for an info hash with fewer than two. -/
theorem Inv.enter {s : Requests} (hs : s.Inv) {infoHash : Bytes} {t : TransactionID} (now : Int)
    (counter : UInt16) (hfree : s.getPeersRequests.lookup t = none)
    (hpending : ((s.pendingInfoHashes.lookup infoHash).getD 0).toNat < 2)
    (hroom : s.getPeersRequests.len < maxPendingGetPeersRequests) :
    Inv { s with
      counter := counter
      getPeersRequests := s.getPeersRequests.insert t ⟨infoHash, now⟩
      pendingInfoHashes :=
        s.pendingInfoHashes.insert infoHash ((s.pendingInfoHashes.lookup infoHash).getD 0 + 1)
      nextRequestExpiry :=
        match s.nextRequestExpiry with
        | none => some (now + getPeersRequestTimeout)
        | some expiry => some
          (if now + getPeersRequestTimeout < expiry then now + getPeersRequestTimeout
            else expiry) } := by
  have hpend := hs.counted.getD infoHash
  generalize (s.pendingInfoHashes.lookup infoHash).getD 0 = count at hpend hpending ⊢
  have hfor : ∀ h, pendingFor { s with
        getPeersRequests := s.getPeersRequests.insert t ⟨infoHash, now⟩ } h =
      s.pendingFor h + if infoHash = h then 1 else 0 := by
    intro h
    have := AList.count_insert_of_lookup_none hfree ⟨infoHash, now⟩
      fun e => decide (e.infoHash = h)
    simpa only [pendingFor, decide_eq_true_eq] using this
  refine ⟨fun h => ?_, fun h => ?_, ?_, fun t' e' he' => ?_⟩
  · rw [AList.lookup_insert_eq_ite]
    refine Eq.trans ?_ (congrArg (fun n => if n = 0 then none else some n) (hfor h)).symm
    by_cases heq : h = infoHash
    · have hadd : (count + 1).toNat = count.toNat + 1 := by
        rw [UInt8.toNat_add]
        exact Nat.mod_eq_of_lt (by simp; omega)
      simp only [heq, if_true, Option.map_some, hadd, hpend]
      simp
    · simp only [heq, Ne.symm heq, if_false, Nat.add_zero]
      exact hs.counted h
  · refine (hfor h).trans_le ?_
    have := hs.pendingFor_le h
    split
    · next heq => subst heq; omega
    · omega
  · exact (AList.len_insert_of_lookup_none hfree _).trans_le hroom
  · rw [AList.lookup_insert_eq_ite] at he'
    split at he'
    · cases he'
      dsimp only
      cases hx : s.nextRequestExpiry with
      | none => exact ⟨_, rfl, Int.le_refl _⟩
      | some x =>
        refine ⟨_, rfl, ?_⟩
        split <;> omega
    · obtain ⟨x, hx, hle⟩ := hs.expiryBound t' e' he'
      dsimp only
      rw [hx]
      refine ⟨_, rfl, ?_⟩
      split <;> omega

/-- What the first critical section of `requestPeers` can do: refuse the query, and then
    only old entries go, or enter it under an ID that no entry has. -/
theorem Inv.requestPeers {s : Requests} (hs : s.Inv) (infoHash : Bytes) (now : Int)
    {order : List ((_ : TransactionID) × GetPeersEntry)}
    (horder : order.Perm s.getPeersRequests.entries) :
    ∃ s' t, s.requestPeersLocked infoHash now order = some (s', t) ∧ s'.Inv ∧
      ∀ t' e, s.getPeersRequests.lookup t' = some e →
        s'.getPeersRequests.lookup t' = some e ∨ e.createdAt ≤ now - getPeersRequestTimeout := by
  obtain ⟨hexp, hlookup⟩ := hs.expire now horder
  unfold requestPeersLocked
  generalize s.expireOldGetPeersRequestsLocked now order = s₁ at hexp hlookup ⊢
  have hkept : ∀ t e, s.getPeersRequests.lookup t = some e →
      s₁.getPeersRequests.lookup t = some e ∨ e.createdAt ≤ now - getPeersRequestTimeout := by
    intro t e he
    by_cases hold : now - getPeersRequestTimeout < e.createdAt
    · exact .inl ((hlookup t e).2 ⟨he, hold⟩)
    · exact .inr (by omega)
  dsimp only
  split
  · exact ⟨_, _, rfl, ⟨hexp.counted, hexp.pendingFor_le, hexp.len_le, hexp.expiryBound⟩, hkept⟩
  next hpending =>
  split
  · exact ⟨_, _, rfl, ⟨hexp.counted, hexp.pendingFor_le, hexp.len_le, hexp.expiryBound⟩, hkept⟩
  next hlen =>
  have hlen' : s₁.getPeersRequests.len < maxPendingGetPeersRequests := Nat.lt_of_not_le hlen
  have hfuel : maxPendingGetPeersRequests < 65536 := by decide
  obtain ⟨⟨t, counter⟩, hfind⟩ :=
    findTransactionID_isSome (hlen'.trans hfuel) now s₁.counter
  rw [hfind]
  -- the loop only reuses the ID of a query that has expired, and none of those is left
  have hfree : s₁.getPeersRequests.lookup t = none := by
    cases he : s₁.getPeersRequests.lookup t with
    | none => rfl
    | some e =>
      have hold := findTransactionID_spec hfind e he
      have hlive := ((hlookup t e).1 he).2
      omega
  refine ⟨_, _, rfl, hexp.enter now counter hfree
    (UInt8.lt_iff_toNat_lt.1 (UInt8.not_le.1 hpending)) hlen', fun t' e he => ?_⟩
  refine (hkept t' e he).imp_left fun hin => ?_
  rw [AList.lookup_insert_eq_ite, if_neg]
  · exact hin
  · rintro rfl
    rw [hfree] at hin
    cases hin

theorem Inv.rollback {s : Requests} (hs : s.Inv) (t : TransactionID) : (s.rollbackLocked t).Inv := by
  unfold rollbackLocked
  cases h : s.getPeersRequests.lookup t with
  | none => exact ⟨hs.counted, hs.pendingFor_le, hs.len_le, hs.expiryBound⟩
  | some e =>
    have hrem := hs.remove h
    exact ⟨hrem.counted, hrem.pendingFor_le, hrem.len_le, hrem.expiryBound⟩

theorem Inv.response {s : Requests} (hs : s.Inv) (msgT : Bytes) :
    (s.onGetPeersResponseLocked msgT).1.Inv := by
  unfold onGetPeersResponseLocked
  split
  · next h => exact hs.remove h
  · exact hs

/-- Rolling back and answering only take an entry out. -/
theorem lookup_rollback {s : Requests} {t t' : TransactionID} {e : GetPeersEntry}
    (h : (s.rollbackLocked t).getPeersRequests.lookup t' = some e) :
    s.getPeersRequests.lookup t' = some e := by
  unfold rollbackLocked at h
  cases ht : s.getPeersRequests.lookup t with
  | none =>
    rw [ht] at h
    exact h
  | some e' =>
    simp only [ht, lookup_remove] at h
    split at h
    · cases h
    · exact h

theorem lookup_response {s : Requests} {msgT : Bytes} {t' : TransactionID} {e : GetPeersEntry}
    (h : (s.onGetPeersResponseLocked msgT).1.getPeersRequests.lookup t' = some e) :
    s.getPeersRequests.lookup t' = some e := by
  unfold onGetPeersResponseLocked at h
  split at h
  · rw [lookup_remove] at h
    split at h
    · cases h
    · exact h
  · exact h

end Requests

/-! ## Runs -/

/-- The table, and the goroutine that handles packets: between the two critical sections
    of `requestPeers` it holds the ID of the query it is sending. -/
structure RequestsState where
  requests : Requests
  sending : Option TransactionID

inductive RequestsAction where
  | requestPeers (infoHash : Bytes) (now : Int) (order : List ((_ : TransactionID) × GetPeersEntry))
  /-- `SendMessage` has taken the query -/
  | sent
  /-- `SendMessage` has returned `false` -/
  | refused
  | response (msgT : Bytes)
  /-- maintenance, or a status call -/
  | expire (now : Int) (order : List ((_ : TransactionID) × GetPeersEntry))

/-- The clock that a critical section reads. -/
def RequestsAction.now : RequestsAction → Option Int
  | .requestPeers _ now _ => some now
  | .expire now _ => some now
  | _ => none

inductive RequestsStep : RequestsState → RequestsAction → RequestsState → Prop where
  | requestPeers {s s' : Requests} {t : Option TransactionID} {infoHash : Bytes} {now : Int}
      {order : List ((_ : TransactionID) × GetPeersEntry)} :
      order.Perm s.getPeersRequests.entries →
      s.requestPeersLocked infoHash now order = some (s', t) →
      RequestsStep ⟨s, none⟩ (.requestPeers infoHash now order) ⟨s', t⟩
  | sent {s : Requests} {t : TransactionID} : RequestsStep ⟨s, some t⟩ .sent ⟨s, none⟩
  | refused {s : Requests} {t : TransactionID} :
      RequestsStep ⟨s, some t⟩ .refused ⟨s.rollbackLocked t, none⟩
  | response {s : Requests} {msgT : Bytes} :
      RequestsStep ⟨s, none⟩ (.response msgT) ⟨(s.onGetPeersResponseLocked msgT).1, none⟩
  | expire {s : Requests} {p : Option TransactionID} {now : Int}
      {order : List ((_ : TransactionID) × GetPeersEntry)} :
      order.Perm s.getPeersRequests.entries →
      RequestsStep ⟨s, p⟩ (.expire now order) ⟨s.expireOldGetPeersRequestsLocked now order, p⟩

/-- Every interleaving of the packet goroutine with calls that expire entries. -/
def requestsSystem : Transition.System RequestsState RequestsAction where
  init s := s = ⟨newRequests, none⟩
  step := RequestsStep

theorem RequestsStep.inv {s s' : RequestsState} {a : RequestsAction} (h : RequestsStep s a s')
    (hs : s.requests.Inv) : s'.requests.Inv := by
  cases h with
  | @requestPeers s s' t infoHash now order horder hreq =>
    obtain ⟨_, _, hreq', hinv, _⟩ := hs.requestPeers infoHash now horder
    cases hreq.symm.trans hreq'
    exact hinv
  | sent => exact hs
  | refused => exact hs.rollback _
  | response => exact hs.response _
  | expire horder => exact (hs.expire _ horder).1

theorem requestsSystem_inv {s : RequestsState} (h : requestsSystem.Reachable s) :
    s.requests.Inv := by
  refine Transition.System.invariant (P := fun s : RequestsState => s.requests.Inv) ?_ ?_ h
  · rintro _ rfl
    exact Requests.newRequests_inv
  · intro s a s' _ hs hstep
    exact RequestsStep.inv hstep hs

/-- A step replaces an entry only when it is 15 seconds old. -/
theorem RequestsStep.overwrites_expired {s s' : RequestsState} {a : RequestsAction}
    (h : RequestsStep s a s') (hs : s.requests.Inv) {t : TransactionID} {e e' : GetPeersEntry}
    (he : s.requests.getPeersRequests.lookup t = some e)
    (he' : s'.requests.getPeersRequests.lookup t = some e') :
    e' = e ∨ ∃ now, a.now = some now ∧ e.createdAt ≤ now - getPeersRequestTimeout := by
  -- a section that only takes entries out leaves `e` at `t`
  have hsame : s.requests.getPeersRequests.lookup t = some e' → e' = e := fun hin =>
    Option.some.inj (hin.symm.trans he)
  cases h with
  | @requestPeers s s' t' infoHash now order horder hreq =>
    obtain ⟨_, _, hreq', _, hkept⟩ := hs.requestPeers infoHash now horder
    cases hreq.symm.trans hreq'
    rcases hkept t e he with hin | hold
    · exact .inl (Option.some.inj (he'.symm.trans hin))
    · exact .inr ⟨now, rfl, hold⟩
  | sent => exact .inl (hsame he')
  | refused => exact .inl (hsame (Requests.lookup_rollback he'))
  | response => exact .inl (hsame (Requests.lookup_response he'))
  | expire horder => exact .inl (hsame (((hs.expire _ horder).2 t e').1 he').1)

/-- In every reachable state the counts agree with the table, both keep their bounds, the
    cached expiry is early enough, `requestPeers` finds an ID, no step overwrites a live
    entry and expiring leaves none that is 15 seconds old. -/
theorem requestsSystem_consistent {s : RequestsState} (h : requestsSystem.Reachable s) :
    (∀ infoHash, (s.requests.pendingInfoHashes.lookup infoHash).map UInt8.toNat =
      if s.requests.pendingFor infoHash = 0 then none
      else some (s.requests.pendingFor infoHash)) ∧
    (∀ infoHash, s.requests.pendingFor infoHash ≤ 2) ∧
    s.requests.getPeersRequests.len ≤ 8192 ∧
    (∀ t e, s.requests.getPeersRequests.lookup t = some e →
      ∃ x, s.requests.nextRequestExpiry = some x ∧ x ≤ e.createdAt + seconds 15) ∧
    (∀ infoHash now order, order.Perm s.requests.getPeersRequests.entries →
      (s.requests.requestPeersLocked infoHash now order).isSome) ∧
    (∀ a s', RequestsStep s a s' → ∀ t e e', s.requests.getPeersRequests.lookup t = some e →
      s'.requests.getPeersRequests.lookup t = some e' →
      e' = e ∨ ∃ now, a.now = some now ∧ e.createdAt ≤ now - seconds 15) ∧
    (∀ now order, order.Perm s.requests.getPeersRequests.entries → ∀ t e,
      (s.requests.expireOldGetPeersRequestsLocked now order).getPeersRequests.lookup t = some e →
      now - seconds 15 < e.createdAt) := by
  have hs := requestsSystem_inv h
  refine ⟨hs.counted, hs.pendingFor_le, hs.len_le, hs.expiryBound, ?_, ?_, ?_⟩
  · intro infoHash now order horder
    obtain ⟨s', t, hreq, _⟩ := hs.requestPeers infoHash now horder
    rw [hreq]
    rfl
  · intro a s' hstep t e e' he he'
    exact hstep.overwrites_expired hs he he'
  · intro now order horder t e he
    exact (((hs.expire now horder).2 t e).1 he).2

theorem requestsSystem_consistent_one_query :
    ∃ s, requestsSystem.Reachable s ∧ s.requests.getPeersRequests.len = 1 ∧
      s.requests.pendingFor [7] ≤ 2 := by
  obtain ⟨s, hs⟩ : ∃ s, newRequests.requestPeersLocked [7] 0 [] = some s := ⟨_, rfl⟩
  have hreach : requestsSystem.Reachable ⟨s.1, s.2⟩ :=
    (Transition.System.Reachable.init rfl).step (RequestsStep.requestPeers (.refl _) hs)
  refine ⟨_, hreach, ?_, (requestsSystem_consistent hreach).2.1 [7]⟩
  cases hs
  rfl

/-! ## The length of the search -/

namespace Requests

/-- The table with the counter at any value. -/
def withCounter (s : Requests) (counter : UInt16) : Requests := { s with counter := counter }

/-- The loop that looks for a transaction ID, entered in the state `s`, is left after its
    iteration `k` with the free ID `t`. -/
structure SearchEnds (s : Requests) (now : Int) (k : Nat) (t : TransactionID) (counter : UInt16) :
    Prop where
  le : k ≤ s.getPeersRequests.len + 1
  runs : ∀ j < k, ∃ v,
    Loop.run (IDSearch.body s.getPeersRequests now) ⟨(0, 0), s.counter⟩ j = .head v
  ends : Loop.run (IDSearch.body s.getPeersRequests now) ⟨(0, 0), s.counter⟩ k = .left ⟨t, counter⟩
  counter_eq : counter.toNat = (s.counter.toNat + k) % 65536
  free : s.getPeersRequests.lookup t = none

theorem withCounter_inv {s : Requests} (hs : s.Inv) (counter : UInt16) : (s.withCounter counter).Inv :=
  ⟨hs.counted, hs.pendingFor_le, hs.len_le, hs.expiryBound⟩

theorem counter_expireStep (cutoff : Int) (acc : Requests × Option Int)
    (e : (_ : TransactionID) × GetPeersEntry) :
    (expireStep cutoff acc e).1.counter = acc.1.counter := by
  unfold expireStep
  split
  · rfl
  · cases acc.2 <;> rfl

theorem counter_expire (s : Requests) (now : Int)
    (order : List ((_ : TransactionID) × GetPeersEntry)) :
    (s.expireOldGetPeersRequestsLocked now order).counter = s.counter := by
  have hfold : ∀ acc : Requests × Option Int,
      (order.foldl (expireStep (now - getPeersRequestTimeout)) acc).1.counter = acc.1.counter := by
    induction order with
    | nil => exact fun acc => rfl
    | cons e order ih => exact fun acc => (ih _).trans (counter_expireStep _ acc e)
  have hall : (expireOldGetPeersRequestsLocked.expireAll s now order).counter = s.counter :=
    hfold (s, none)
  unfold expireOldGetPeersRequestsLocked
  cases s.nextRequestExpiry with
  | none => exact hall
  | some expiry =>
    dsimp only
    split
    · rfl
    · exact hall

theorem exists_searchEnds {s : Requests} {now : Int} (hlen : s.getPeersRequests.len < 65536)
    (hlive : ∀ t e, s.getPeersRequests.lookup t = some e →
      now - getPeersRequestTimeout < e.createdAt) :
    ∃ k t counter, SearchEnds s now k t counter ∧
      findTransactionID s.getPeersRequests now 65536 s.counter = some (t, counter) := by
  obtain ⟨n, hn, v, w, hhead, hleft⟩ := @IDSearch.leaves _ now hlen ⟨(0, 0), s.counter⟩
  obtain ⟨hcounter, hrest⟩ := IDSearch.run_head hhead
  obtain ⟨hnext, hfound⟩ := IDSearch.body_left hleft
  have hfind : findTransactionID s.getPeersRequests now 65536 s.counter = some (w.t, w.counter) := by
    obtain ⟨fuel, hfuel⟩ : ∃ fuel, 65536 = n + (fuel + 1) := ⟨65535 - n, by omega⟩
    rw [hfuel, hrest, hfound]
  refine ⟨n + 1, w.t, w.counter, ⟨Nat.succ_le_succ hn, ?_, ?_, ?_, ?_⟩, hfind⟩
  · exact fun j hj => Loop.head_of_le hhead (Nat.le_of_lt_succ hj)
  · exact (Loop.run_succ_of_head hhead).trans hleft
  · rw [hnext, hcounter, UInt16.toNat_add, UInt16.toNat_add, UInt16.toNat_ofNat']
    change ((s.counter.toNat + n % 65536) % 65536 + 1) % 65536 = _
    omega
  · cases he : s.getPeersRequests.lookup w.t with
    | none => rfl
    | some e =>
      have hold := findTransactionID_spec hfind e he
      have hyoung := hlive w.t e he
      omega

end Requests

/-- In every reachable state, whatever the counter is, the loop in `requestPeers` that looks
    for a transaction ID is left after at most one iteration more than there are pending
    entries, and each iteration has raised the counter by one. -/
theorem requestPeers_search_ends {s : RequestsState} (h : requestsSystem.Reachable s)
    (counter : UInt16) (now : Int) {order : List ((_ : TransactionID) × GetPeersEntry)}
    (horder : order.Perm s.requests.getPeersRequests.entries) {s₁ : Requests}
    (hs₁ : (s.requests.withCounter counter).expireOldGetPeersRequestsLocked now order = s₁)
    (hroom : s₁.getPeersRequests.len < maxPendingGetPeersRequests) :
    s₁.counter = counter ∧ ∃ k t counter', s₁.SearchEnds now k t counter' ∧
      ∀ infoHash, (s₁.pendingInfoHashes.lookup infoHash).getD 0 < maxPendingRequestsPerInfoHash →
        ∃ s', (s.requests.withCounter counter).requestPeersLocked infoHash now order =
            some (s', some t) ∧
          s'.counter = counter' := by
  have hinv := Requests.withCounter_inv (requestsSystem_inv h) counter
  have hlookup := (hinv.expire now horder).2
  have hcounter := Requests.counter_expire (s.requests.withCounter counter) now order
  rw [hs₁] at hlookup hcounter
  have hfuel : maxPendingGetPeersRequests < 65536 := by decide
  obtain ⟨k, t, counter', hends, hfind⟩ := Requests.exists_searchEnds (hroom.trans hfuel)
    fun t e he => ((hlookup t e).1 he).2
  refine ⟨hcounter, k, t, counter', hends, fun infoHash hpending => ?_⟩
  rw [Requests.requestPeersLocked, hs₁]
  dsimp only
  rw [if_neg (UInt8.not_le.2 hpending), if_neg (Nat.not_le_of_lt hroom), hfind]
  exact ⟨_, rfl, rfl⟩

/-- From its last value the counter wraps around. -/
theorem requestPeers_search_ends_wrapping :
    ∃ s k t counter, requestsSystem.Reachable s ∧ s.requests.getPeersRequests.len = 1 ∧
      ((s.requests.withCounter 65535).expireOldGetPeersRequestsLocked 1
        s.requests.getPeersRequests.entries).SearchEnds 1 k t counter ∧
      counter.toNat = (65535 + k) % 65536 := by
  obtain ⟨s, hs⟩ : ∃ s, newRequests.requestPeersLocked [7] 0 [] = some s := ⟨_, rfl⟩
  have hreach : requestsSystem.Reachable ⟨s.1, s.2⟩ :=
    (Transition.System.Reachable.init rfl).step (RequestsStep.requestPeers (.refl _) hs)
  have hlen : s.1.getPeersRequests.len = 1 := by
    cases hs
    rfl
  have hroom : ((s.1.withCounter 65535).expireOldGetPeersRequestsLocked 1
      s.1.getPeersRequests.entries).getPeersRequests.len < maxPendingGetPeersRequests := by
    cases hs
    decide
  obtain ⟨hcounter, k, t, counter, hends, -⟩ :=
    requestPeers_search_ends hreach 65535 1 (.refl _) rfl hroom
  exact ⟨_, k, t, counter, hreach, hlen, hends, by rw [hends.counter_eq, hcounter]; rfl⟩

end DhtClient
