-- SUMMARY: The sink, which hands the peers of an info hash to one download after another: its operations and what each does to its three maps.
import LazyDhtc.DhtClient.Types
import LazyDhtc.Lib.GoMap

/-!
# Sink

The sink keeps, for each info hash it is downloading, the peers still to be tried,
the address family it was found on and every peer ever queued. The definitions here
are the critical sections of its methods; how goroutines interleave them is in
`SinkRuns.lean`.
-/

namespace DhtClient

/-- The capacity of the `drain` channel. -/
def drainCapacity : Nat := 10

/-- A `Sink`. `drain` is the buffer of the channel, which is closed when the sink is
    terminated. -/
structure Sink where
  maxNLeeches : Int
  maxConcurrentDownloads : Nat
  incomingInfoHashes : GoMap Bytes (List AddrPort)
  incomingFamilies : GoMap Bytes Int64
  incomingPeers : GoMap Bytes (GoMap AddrPort Unit)
  terminated : Bool
  drain : List Metadata

def newSink (maxNLeeches : Int) (maxConcurrentDownloads : Nat) : Sink :=
  ⟨maxNLeeches, maxConcurrentDownloads, ∅, ∅, ∅, false, []⟩

/-! ## Peers -/

/-- The loop of `uniqueValidPeers`. -/
def uniqueValidPeersFrom (existing : GoMap AddrPort Unit) :
    List AddrPort → GoMap AddrPort Unit → List AddrPort
  | [], _ => []
  | peer :: peers, seen =>
    if peer.isValid = false ∨ peer.port = 0 then uniqueValidPeersFrom existing peers seen
    else if peer ∈ existing then uniqueValidPeersFrom existing peers seen
    else if peer ∈ seen then uniqueValidPeersFrom existing peers seen
    else peer :: uniqueValidPeersFrom existing peers (seen.insert peer ())

def uniqueValidPeers (peers : List AddrPort) (existing : GoMap AddrPort Unit) : List AddrPort :=
  uniqueValidPeersFrom existing peers ∅

/-- The loop that enters peers into a set. -/
def insertPeers (set : GoMap AddrPort Unit) (peers : List AddrPort) : GoMap AddrPort Unit :=
  peers.foldl (fun set peer => set.insert peer ()) set

def peerSet (peers : List AddrPort) : GoMap AddrPort Unit := insertPeers ∅ peers

/-! ## Methods -/

namespace Sink

/-- Whether an info hash is being downloaded. -/
def Active (ms : Sink) (infoHash : Bytes) : Prop := infoHash ∈ ms.incomingInfoHashes

instance (ms : Sink) (infoHash : Bytes) : Decidable (ms.Active infoHash) :=
  inferInstanceAs (Decidable (infoHash ∈ ms.incomingInfoHashes))

/-- The peers still queued for an info hash. -/
def queued (ms : Sink) (infoHash : Bytes) : List AddrPort :=
  (ms.incomingInfoHashes.lookup infoHash).getD []

/-- `Sink.Sink`: the peer of the download it starts when it returns `true`. -/
def sink (ms : Sink) (res : Result) : Sink × Option AddrPort :=
  if ms.terminated then (ms, none)
  else if ms.maxNLeeches ≤ ms.incomingInfoHashes.len then (ms, none)
  else if res.infoHash ∈ ms.incomingInfoHashes then (ms, none)
  else
    let peerAddrs := uniqueValidPeers res.peerAddrs ∅
    match peerAddrs with
    | peer :: rest =>
      ({ ms with
        incomingInfoHashes := ms.incomingInfoHashes.insert res.infoHash rest
        incomingFamilies := ms.incomingFamilies.insert res.infoHash res.family
        incomingPeers := ms.incomingPeers.insert res.infoHash (peerSet peerAddrs) }, some peer)
    | [] => (ms, none)

/-- `none` is the panic of writing to a nil map. -/
def addPeers (ms : Sink) (res : Result) : Option (Sink × Bool) :=
  if ms.terminated then some (ms, false)
  else if res.infoHash ∉ ms.incomingInfoHashes then some (ms, false)
  else
    let peers :=
      uniqueValidPeers res.peerAddrs ((ms.incomingPeers.lookup res.infoHash).getD ∅)
    if peers = [] then some (ms, false)
    else
      match ms.incomingPeers.lookup res.infoHash with
      | none => none
      | some set =>
        some ({ ms with
          incomingPeers := ms.incomingPeers.insert res.infoHash (insertPeers set peers)
          incomingInfoHashes :=
            ms.incomingInfoHashes.insert res.infoHash (ms.queued res.infoHash ++ peers) }, true)

def onPeers (ms : Sink) (infoHash : Bytes) (peers : List AddrPort) : Sink :=
  if infoHash ∉ ms.incomingInfoHashes then ms
  else
    { ms with
      incomingInfoHashes := ms.incomingInfoHashes.insert infoHash (ms.queued infoHash ++ peers) }

/-- The three deletions that end the download of an info hash. -/
def forget (ms : Sink) (infoHash : Bytes) : Sink :=
  { ms with
    incomingInfoHashes := ms.incomingInfoHashes.erase infoHash
    incomingFamilies := ms.incomingFamilies.erase infoHash
    incomingPeers := ms.incomingPeers.erase infoHash }

/-- The section of `flush` between its two locks: the metadata it is about to send. -/
def flushLocked (ms : Sink) (result : Metadata) : Sink × Metadata :=
  (ms.forget result.infoHash,
    { result with family := (ms.incomingFamilies.lookup result.infoHash).getD 0 })

/-- The section of `onLeechError`: the peer of the next download, or `none` if it has
    called `onDiscard`. -/
def onLeechErrorLocked (ms : Sink) (infoHash : Bytes) : Sink × Option AddrPort :=
  match ms.queued infoHash with
  | peer :: rest =>
    ({ ms with incomingInfoHashes := ms.incomingInfoHashes.insert infoHash rest }, some peer)
  | [] => (ms.forget infoHash, none)

/-- The section of `Terminate`, which also closes `drain`. -/
def terminate (ms : Sink) : Sink := { ms with terminated := true }

/-! ## Settings -/

/-- What only `Terminate` changes. -/
def settings (ms : Sink) : Int × Nat × Bool :=
  (ms.maxNLeeches, ms.maxConcurrentDownloads, ms.terminated)

theorem settings_sink (ms : Sink) (res : Result) : (ms.sink res).1.settings = ms.settings := by
  unfold sink
  split
  · rfl
  split
  · rfl
  split
  · rfl
  dsimp only
  split <;> rfl

/-- What `AddPeers` does when it returns: nothing, or queue the new peers of an info hash that
    has a set of peers. -/
theorem addPeers_inv {ms ms' : Sink} {res : Result} {added : Bool}
    (h : ms.addPeers res = some (ms', added)) :
    (added = false ∧ ms' = ms) ∨
    ∃ set, added = true ∧ ms.Active res.infoHash ∧
      ms.incomingPeers.lookup res.infoHash = some set ∧
      ms' = { ms with
        incomingPeers := ms.incomingPeers.insert res.infoHash
          (insertPeers set (uniqueValidPeers res.peerAddrs set))
        incomingInfoHashes := ms.incomingInfoHashes.insert res.infoHash
          (ms.queued res.infoHash ++ uniqueValidPeers res.peerAddrs set) } := by
  unfold addPeers at h
  split at h
  · cases h
    exact .inl ⟨rfl, rfl⟩
  split at h
  · cases h
    exact .inl ⟨rfl, rfl⟩
  next hactive =>
  dsimp only at h
  split at h
  · cases h
    exact .inl ⟨rfl, rfl⟩
  split at h
  · cases h
  · next set hset =>
    cases h
    refine .inr ⟨set, rfl, not_not.1 hactive, hset, ?_⟩
    rw [hset, Option.getD_some]

theorem settings_addPeers {ms ms' : Sink} {res : Result} {added : Bool}
    (h : ms.addPeers res = some (ms', added)) : ms'.settings = ms.settings := by
  rcases addPeers_inv h with ⟨-, rfl⟩ | ⟨_, -, -, -, rfl⟩
  · rfl
  · rfl

theorem settings_onPeers (ms : Sink) (infoHash : Bytes) (peers : List AddrPort) :
    (ms.onPeers infoHash peers).settings = ms.settings := by
  unfold onPeers
  split <;> rfl

theorem settings_onLeechErrorLocked (ms : Sink) (infoHash : Bytes) :
    (ms.onLeechErrorLocked infoHash).1.settings = ms.settings := by
  unfold onLeechErrorLocked
  split <;> rfl

/-! ## The maps -/

/-- The key sets of the three maps are equal. -/
def MapsAgree (ms : Sink) : Prop :=
  ∀ infoHash, (infoHash ∈ ms.incomingFamilies ↔ infoHash ∈ ms.incomingInfoHashes) ∧
    (infoHash ∈ ms.incomingPeers ↔ infoHash ∈ ms.incomingInfoHashes)

/-- No more info hashes are being downloaded than allowed. -/
def WithinLimit (ms : Sink) : Prop := ms.incomingInfoHashes.len ≤ ms.maxNLeeches.toNat

theorem newSink_mapsAgree (maxNLeeches : Int) (maxConcurrentDownloads : Nat) :
    (newSink maxNLeeches maxConcurrentDownloads).MapsAgree := fun infoHash => by
  simp [newSink]

theorem newSink_withinLimit (maxNLeeches : Int) (maxConcurrentDownloads : Nat) :
    (newSink maxNLeeches maxConcurrentDownloads).WithinLimit := Nat.zero_le _

/-- What `Sink.Sink` can do: refuse, or start the download of a new info hash. -/
theorem sink_cases (ms : Sink) (res : Result) :
    ms.sink res = (ms, none) ∨
    ∃ peer rest set, ms.terminated = false ∧ (ms.incomingInfoHashes.len : Int) < ms.maxNLeeches ∧
      ¬ ms.Active res.infoHash ∧
      ms.sink res = ({ ms with
        incomingInfoHashes := ms.incomingInfoHashes.insert res.infoHash rest
        incomingFamilies := ms.incomingFamilies.insert res.infoHash res.family
        incomingPeers := ms.incomingPeers.insert res.infoHash set }, some peer) := by
  unfold sink
  split
  · exact .inl rfl
  next hrun =>
  split
  · exact .inl rfl
  next hroom =>
  split
  · exact .inl rfl
  next hnew =>
  dsimp only
  split
  · next peer rest _ =>
    exact .inr ⟨peer, rest, _, by simpa using hrun, by omega, hnew, rfl⟩
  · exact .inl rfl

theorem sink_refused {ms ms' : Sink} {res : Result} (h : ms.sink res = (ms', none)) : ms' = ms := by
  rcases ms.sink_cases res with heq | ⟨_, _, _, -, -, -, heq⟩
  · cases h.symm.trans heq
    rfl
  · cases h.symm.trans heq

/-- What `AddPeers` can do when the maps agree: nothing, or change the peers of an
    info hash that is being downloaded. It never writes to a nil map. -/
theorem addPeers_cases {ms : Sink} (h : ms.MapsAgree) (res : Result) :
    ms.addPeers res = some (ms, false) ∨
    ∃ queue set, ms.Active res.infoHash ∧
      ms.addPeers res = some ({ ms with
        incomingPeers := ms.incomingPeers.insert res.infoHash set
        incomingInfoHashes := ms.incomingInfoHashes.insert res.infoHash queue }, true) := by
  unfold addPeers
  split
  · exact .inl rfl
  split
  · exact .inl rfl
  next hactive =>
  dsimp only
  split
  · exact .inl rfl
  split
  · next hnone =>
    have hmem := (h res.infoHash).2.2 (not_not.1 hactive)
    exact (AList.lookup_eq_none.1 hnone hmem).elim
  · exact .inr ⟨_, _, not_not.1 hactive, rfl⟩

theorem onPeers_cases (ms : Sink) (infoHash : Bytes) (peers : List AddrPort) :
    ms.onPeers infoHash peers = ms ∨
    ms.Active infoHash ∧ ms.onPeers infoHash peers = { ms with
      incomingInfoHashes := ms.incomingInfoHashes.insert infoHash (ms.queued infoHash ++ peers) } := by
  unfold onPeers
  split
  · exact .inl rfl
  · next hactive => exact .inr ⟨not_not.1 hactive, rfl⟩

theorem onLeechErrorLocked_cases (ms : Sink) (infoHash : Bytes) :
    (∃ peer rest, ms.queued infoHash = peer :: rest ∧ ms.Active infoHash ∧
      ms.onLeechErrorLocked infoHash = ({ ms with
        incomingInfoHashes := ms.incomingInfoHashes.insert infoHash rest }, some peer)) ∨
    ms.queued infoHash = [] ∧ ms.onLeechErrorLocked infoHash = (ms.forget infoHash, none) := by
  unfold onLeechErrorLocked
  split
  · next peer rest hq =>
    refine .inl ⟨peer, rest, hq, ?_, rfl⟩
    by_contra hnot
    rw [queued, AList.lookup_eq_none.2 hnot] at hq
    cases hq
  · next hq => exact .inr ⟨hq, rfl⟩

/-! ## The channel -/

theorem drain_sink (ms : Sink) (res : Result) : (ms.sink res).1.drain = ms.drain := by
  rcases ms.sink_cases res with heq | ⟨_, _, _, -, -, -, heq⟩
  · rw [heq]
  · rw [heq]

theorem drain_addPeers {ms ms' : Sink} {res : Result} {added : Bool}
    (h : ms.addPeers res = some (ms', added)) : ms'.drain = ms.drain := by
  rcases addPeers_inv h with ⟨-, rfl⟩ | ⟨_, -, -, -, rfl⟩
  · rfl
  · rfl

theorem drain_onPeers (ms : Sink) (infoHash : Bytes) (peers : List AddrPort) :
    (ms.onPeers infoHash peers).drain = ms.drain := by
  rcases ms.onPeers_cases infoHash peers with heq | ⟨-, heq⟩
  · rw [heq]
  · rw [heq]

theorem drain_onLeechErrorLocked (ms : Sink) (infoHash : Bytes) :
    (ms.onLeechErrorLocked infoHash).1.drain = ms.drain := by
  rcases ms.onLeechErrorLocked_cases infoHash with ⟨_, _, -, -, heq⟩ | ⟨-, heq⟩
  · rw [heq]
  · rw [heq]
    rfl

/-! ## Updates of the maps -/

@[simp] theorem active_forget (ms : Sink) (h infoHash : Bytes) :
    (ms.forget h).Active infoHash ↔ infoHash ≠ h ∧ ms.Active infoHash := AList.mem_erase

theorem active_requeue {ms : Sink} {h : Bytes} (hactive : ms.Active h) (queue : List AddrPort)
    (infoHash : Bytes) :
    infoHash ∈ ms.incomingInfoHashes.insert h queue ↔ infoHash ∈ ms.incomingInfoHashes := by
  rw [AList.mem_insert]
  refine ⟨?_, .inr⟩
  rintro (rfl | hin)
  · exact hactive
  · exact hin

theorem MapsAgree.forget {ms : Sink} (hms : ms.MapsAgree) (h : Bytes) : (ms.forget h).MapsAgree := by
  intro infoHash
  simp only [Sink.forget, AList.mem_erase, (hms infoHash).1, (hms infoHash).2, and_self]

theorem WithinLimit.forget {ms : Sink} (hms : ms.WithinLimit) (h : Bytes) :
    (ms.forget h).WithinLimit :=
  (AList.len_erase_le _ _).trans hms

/-- Changing the queue of an info hash that is being downloaded. -/
theorem MapsAgree.requeue {ms : Sink} (hms : ms.MapsAgree) {h : Bytes} (hactive : ms.Active h)
    (queue : List AddrPort) :
    MapsAgree { ms with incomingInfoHashes := ms.incomingInfoHashes.insert h queue } := by
  intro infoHash
  simp only [active_requeue hactive, (hms infoHash).1, (hms infoHash).2, and_self]

theorem WithinLimit.requeue {ms : Sink} (hms : ms.WithinLimit) {h : Bytes} (hactive : ms.Active h)
    (queue : List AddrPort) :
    WithinLimit { ms with incomingInfoHashes := ms.incomingInfoHashes.insert h queue } :=
  (AList.len_insert_of_mem hactive queue).trans_le hms

end Sink

end DhtClient
