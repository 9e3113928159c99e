-- SUMMARY: The peers that are tried for an info hash between its acceptance and its removal, and what peers that come by PEX change about them.
import LazyDhtc.DhtClient.SinkRuns
import Mathlib.Data.List.Dedup

/-!
# Attempts

The tenure of an info hash lasts from its acceptance to its removal. Its queue is extended
from three sides, of which only two look at the peers that the sink has seen.
-/

namespace DhtClient

/-! ## Tenures -/

/-- What has happened to an info hash since it was accepted. -/
structure Tenure where
  /-- the peers of all results and PEX messages -/
  reported : List AddrPort
  /-- the peers that were put into the queue, with the first one -/
  queued : List AddrPort
  /-- those of them that came by PEX -/
  pex : List AddrPort
  /-- the peers that a download was started for -/
  tried : List AddrPort

namespace Tenure

def start (reported queued : List AddrPort) (peer : AddrPort) : Tenure :=
  ⟨reported, queued, [], [peer]⟩

def addPeers (t : Tenure) (reported queued : List AddrPort) : Tenure :=
  { t with reported := t.reported ++ reported, queued := t.queued ++ queued }

def onPeers (t : Tenure) (peers : List AddrPort) : Tenure :=
  { t with
    reported := t.reported ++ peers
    queued := t.queued ++ peers
    pex := t.pex ++ peers }

def attempt (t : Tenure) (peer : AddrPort) : Tenure := { t with tried := t.tried ++ [peer] }

end Tenure

/-- The peers that the sink has seen for an info hash. -/
def Sink.seen (ms : Sink) (infoHash : Bytes) : GoMap AddrPort Unit :=
  (ms.incomingPeers.lookup infoHash).getD ∅

structure AttemptState where
  run : SinkRun
  tenures : Bytes → Option Tenure

/-- What a step makes of the tenures. -/
def tenuresAfter (s : AttemptState) : SinkAction → Bytes → Option Tenure
  | .sink res =>
    match (s.run.sink.sink res).2 with
    | some peer => Function.update s.tenures res.infoHash
        (some (.start res.peerAddrs (uniqueValidPeers res.peerAddrs ∅) peer))
    | none => s.tenures
  | .addPeers res =>
    match s.run.sink.addPeers res with
    | some (_, true) => Function.update s.tenures res.infoHash
        ((s.tenures res.infoHash).map fun t =>
          t.addPeers res.peerAddrs (uniqueValidPeers res.peerAddrs (s.run.sink.seen res.infoHash)))
    | _ => s.tenures
  | .download infoHash (.onPeers peers) =>
    Function.update s.tenures infoHash ((s.tenures infoHash).map fun t => t.onPeers peers)
  | .download infoHash (.retry peer) =>
    Function.update s.tenures infoHash ((s.tenures infoHash).map fun t => t.attempt peer)
  | .download _ (.take result) => Function.update s.tenures result.infoHash none
  | .download infoHash .discard => Function.update s.tenures infoHash none
  | _ => s.tenures

/-- Every interleaving on a new sink, with the tenures of all info hashes. -/
def attemptSystem (maxNLeeches : Int) (maxConcurrentDownloads : Nat) :
    Transition.System AttemptState SinkAction where
  init s := (sinkSystem maxNLeeches maxConcurrentDownloads).init s.run ∧ s.tenures = fun _ => none
  step s a s' := (sinkSystem maxNLeeches maxConcurrentDownloads).step s.run a s'.run ∧
    s'.tenures = tenuresAfter s a

/-- An address that a download can be started for. -/
def AddrPort.Usable (a : AddrPort) : Prop := a.isValid = true ∧ a.port ≠ 0

/-- A PEX message brings usable addresses, each once and none that was queued before, and
    `AddPeers` does not take a peer as new that has come by PEX. -/
def PeersFresh (s : AttemptState) : SinkAction → Prop
  | .download infoHash (.onPeers peers) => ∀ t, s.tenures infoHash = some t →
      (∀ p ∈ peers, p.Usable) ∧ peers.Nodup ∧ ∀ p ∈ peers, p ∉ t.queued
  | .addPeers res => ∀ t, s.tenures res.infoHash = some t →
      ∀ p ∈ uniqueValidPeers res.peerAddrs (s.run.sink.seen res.infoHash), p ∉ t.pex
  | _ => True

/-! ## The peers of a result -/

/-- `uniqueValidPeers` keeps usable peers, each once and none that it knows. -/
theorem uniqueValidPeersFrom_spec (existing : GoMap AddrPort Unit) (peers : List AddrPort)
    (seen : GoMap AddrPort Unit) :
    (uniqueValidPeersFrom existing peers seen).Nodup ∧
      ∀ p ∈ uniqueValidPeersFrom existing peers seen,
        p.Usable ∧ p ∉ existing ∧ p ∉ seen ∧ p ∈ peers := by
  induction peers generalizing seen with
  | nil => simp [uniqueValidPeersFrom]
  | cons peer peers ih =>
    have hlater : ∀ {seen}, ∀ p ∈ uniqueValidPeersFrom existing peers seen,
        p.Usable ∧ p ∉ existing ∧ p ∉ seen ∧ p ∈ peer :: peers := by
      intro seen p hp
      obtain ⟨husable, hexisting, hseen, hmem⟩ := (ih seen).2 p hp
      exact ⟨husable, hexisting, hseen, List.mem_cons_of_mem _ hmem⟩
    unfold uniqueValidPeersFrom
    split_ifs with hbad hknown hseen
    · exact ⟨(ih seen).1, hlater⟩
    · exact ⟨(ih seen).1, hlater⟩
    · exact ⟨(ih seen).1, hlater⟩
    · obtain ⟨hvalid, hport⟩ := not_or.1 hbad
      refine ⟨List.nodup_cons.2 ⟨fun hmem => ?_, (ih _).1⟩, ?_⟩
      · exact (hlater peer hmem).2.2.1 ((AList.mem_insert _).2 (.inl rfl))
      · rintro p (_ | ⟨_, hp⟩)
        · exact ⟨⟨by simpa using hvalid, hport⟩, hknown, hseen, List.mem_cons_self⟩
        · obtain ⟨husable, hexisting, hnew, hmem⟩ := hlater p hp
          exact ⟨husable, hexisting, fun h => hnew ((AList.mem_insert _).2 (.inr h)), hmem⟩

theorem mem_insertPeers (set : GoMap AddrPort Unit) (peers : List AddrPort) (p : AddrPort) :
    p ∈ insertPeers set peers ↔ p ∈ set ∨ p ∈ peers := by
  induction peers generalizing set with
  | nil => simp [insertPeers]
  | cons peer peers ih =>
    have hstep : insertPeers set (peer :: peers) = insertPeers (set.insert peer ()) peers := rfl
    rw [hstep, ih, AList.mem_insert, List.mem_cons]
    tauto

/-! ## One tenure -/

/-- The peers were tried in the order of the queue, each is usable, was reported, and was
    queued once, and the sink has seen those that did not come by PEX. -/
structure Tenure.Good (t : Tenure) (queue : List AddrPort) (seen : GoMap AddrPort Unit) : Prop where
  split : t.tried ++ queue = t.queued
  nodup : t.queued.Nodup
  usable : ∀ p ∈ t.queued, p.Usable
  reported : ∀ p ∈ t.queued, p ∈ t.reported
  known : ∀ p ∈ t.queued, p ∈ seen ∨ p ∈ t.pex

namespace Tenure

theorem good_start {peers rest : List AddrPort} {peer : AddrPort}
    (h : uniqueValidPeers peers ∅ = peer :: rest) :
    (start peers (uniqueValidPeers peers ∅) peer).Good rest
      (peerSet (uniqueValidPeers peers ∅)) := by
  obtain ⟨hnodup, hspec⟩ := uniqueValidPeersFrom_spec ∅ peers ∅
  exact {
    split := h.symm
    nodup := hnodup
    usable := fun p hp => (hspec p hp).1
    reported := fun p hp => (hspec p hp).2.2.2
    known := fun p hp => .inl ((mem_insertPeers ∅ _ p).2 (.inr hp)) }

theorem Good.addPeers {t : Tenure} {queue : List AddrPort} {seen : GoMap AddrPort Unit}
    (h : t.Good queue seen) {peers : List AddrPort}
    (hpex : ∀ p ∈ uniqueValidPeers peers seen, p ∉ t.pex) :
    (t.addPeers peers (uniqueValidPeers peers seen)).Good (queue ++ uniqueValidPeers peers seen)
      (insertPeers seen (uniqueValidPeers peers seen)) := by
  obtain ⟨hnodup, hspec⟩ := uniqueValidPeersFrom_spec seen peers ∅
  refine ⟨?_, ?_, ?_, ?_, ?_⟩
  · rw [Tenure.addPeers, ← List.append_assoc, h.split]
  · refine List.nodup_append'.2 ⟨h.nodup, hnodup, fun p hp hnew => ?_⟩
    exact (h.known p hp).elim (hspec p hnew).2.1 (hpex p hnew)
  · intro p hp
    exact (List.mem_append.1 hp).elim (h.usable p) fun hp => (hspec p hp).1
  · intro p hp
    rcases List.mem_append.1 hp with hp | hp
    · exact List.mem_append_left _ (h.reported p hp)
    · exact List.mem_append_right _ (hspec p hp).2.2.2
  · intro p hp
    rw [mem_insertPeers]
    rcases List.mem_append.1 hp with hp | hp
    · exact (h.known p hp).imp_left .inl
    · exact .inl (.inr hp)

theorem Good.onPeers {t : Tenure} {queue : List AddrPort} {seen : GoMap AddrPort Unit}
    (h : t.Good queue seen) {peers : List AddrPort} (husable : ∀ p ∈ peers, p.Usable)
    (hnodup : peers.Nodup) (hnew : ∀ p ∈ peers, p ∉ t.queued) :
    (t.onPeers peers).Good (queue ++ peers) seen := by
  refine ⟨?_, ?_, ?_, ?_, ?_⟩
  · rw [Tenure.onPeers, ← List.append_assoc, h.split]
  · exact List.nodup_append'.2 ⟨h.nodup, hnodup, fun p hp hp' => hnew p hp' hp⟩
  · intro p hp
    exact (List.mem_append.1 hp).elim (h.usable p) (husable p)
  · intro p hp
    exact (List.mem_append.1 hp).elim (fun hp => List.mem_append_left _ (h.reported p hp))
      fun hp => List.mem_append_right _ hp
  · intro p hp
    rcases List.mem_append.1 hp with hp | hp
    · exact (h.known p hp).imp_right (List.mem_append_left _)
    · exact .inr (List.mem_append_right _ hp)

theorem Good.attempt {t : Tenure} {peer : AddrPort} {rest : List AddrPort}
    {seen : GoMap AddrPort Unit} (h : t.Good (peer :: rest) seen) :
    (t.attempt peer).Good rest seen := by
  refine ⟨?_, h.nodup, h.usable, h.reported, h.known⟩
  rw [Tenure.attempt, List.append_assoc]
  exact h.split

/-- As many peers are tried as are reported at most. -/
theorem Good.bounded {t : Tenure} {queue : List AddrPort} {seen : GoMap AddrPort Unit}
    (h : t.Good queue seen) : t.tried.Nodup ∧ t.tried.length ≤ t.reported.dedup.length := by
  have htried : t.tried <+: t.queued := ⟨queue, h.split⟩
  have hnodup : t.tried.Nodup := htried.sublist.nodup h.nodup
  refine ⟨hnodup, (List.subperm_of_subset hnodup ?_).length_le⟩
  intro p hp
  exact List.mem_dedup.2 (h.reported p (htried.subset hp))

end Tenure

/-! ## All tenures -/

/-- The sink has the queue and the seen peers of a tenure, or not the info hash. -/
def Follows (ms : Sink) (infoHash : Bytes) : Option Tenure → Prop
  | none => ¬ ms.Active infoHash
  | some t => ms.Active infoHash ∧ t.Good (ms.queued infoHash) (ms.seen infoHash)

theorem Follows.congr {ms ms' : Sink} {infoHash : Bytes} {t : Option Tenure}
    (h : Follows ms infoHash t)
    (hqueue : ms'.incomingInfoHashes.lookup infoHash = ms.incomingInfoHashes.lookup infoHash)
    (hseen : ms'.incomingPeers.lookup infoHash = ms.incomingPeers.lookup infoHash) :
    Follows ms' infoHash t := by
  have hactive : ms'.Active infoHash ↔ ms.Active infoHash := by
    unfold Sink.Active
    rw [← AList.lookup_isSome, ← AList.lookup_isSome, hqueue]
  cases t with
  | none => exact fun h' => h (hactive.1 h')
  | some t =>
    refine ⟨hactive.2 h.1, ?_⟩
    unfold Sink.queued Sink.seen
    rw [hqueue, hseen]
    exact h.2

/-- An info hash that is being downloaded has a tenure. -/
theorem Follows.good_of_active {ms : Sink} {infoHash : Bytes} {t : Option Tenure}
    (h : Follows ms infoHash t) (hactive : ms.Active infoHash) :
    ∃ t', t = some t' ∧ t'.Good (ms.queued infoHash) (ms.seen infoHash) := by
  cases t with
  | none => exact (h hactive).elim
  | some t => exact ⟨t, rfl, h.2⟩

/-- A change of the maps at one info hash leaves the tenures of the others. -/
theorem follows_update {ms ms' : Sink} {tenures : Bytes → Option Tenure} {infoHash : Bytes}
    {t : Option Tenure} (h : ∀ infoHash, Follows ms infoHash (tenures infoHash))
    (hqueue : ∀ h', h' ≠ infoHash →
      ms'.incomingInfoHashes.lookup h' = ms.incomingInfoHashes.lookup h')
    (hseen : ∀ h', h' ≠ infoHash → ms'.incomingPeers.lookup h' = ms.incomingPeers.lookup h')
    (ht : Follows ms' infoHash t) :
    ∀ h', Follows ms' h' (Function.update tenures infoHash t h') := by
  intro h'
  by_cases heq : h' = infoHash
  · subst heq
    rwa [Function.update_self]
  · rw [Function.update_of_ne heq]
    exact (h h').congr (hqueue h' heq) (hseen h' heq)

theorem follows_forget {ms : Sink} {tenures : Bytes → Option Tenure} {infoHash : Bytes}
    (h : ∀ infoHash, Follows ms infoHash (tenures infoHash)) :
    ∀ h', Follows (ms.forget infoHash) h' (Function.update tenures infoHash none h') := by
  refine follows_update h ?_ ?_ ?_
  · exact fun h' hne => AList.lookup_erase_ne hne
  · exact fun h' hne => AList.lookup_erase_ne hne
  · exact fun hactive => ((Sink.active_forget ms infoHash infoHash).1 hactive).1 rfl

/-- What `Sink.Sink` does when it accepts. -/
theorem sink_accept {ms ms' : Sink} {res : Result} {peer : AddrPort}
    (h : ms.sink res = (ms', some peer)) :
    ∃ rest, uniqueValidPeers res.peerAddrs ∅ = peer :: rest ∧ ms' = { ms with
      incomingInfoHashes := ms.incomingInfoHashes.insert res.infoHash rest
      incomingFamilies := ms.incomingFamilies.insert res.infoHash res.family
      incomingPeers := ms.incomingPeers.insert res.infoHash
        (peerSet (uniqueValidPeers res.peerAddrs ∅)) } := by
  unfold Sink.sink at h
  split at h
  · cases h
  split at h
  · cases h
  split at h
  · cases h
  dsimp only at h
  split at h
  · next peer' rest hpeers =>
    cases h
    exact ⟨rest, hpeers, rfl⟩
  · cases h

/-- What `AddPeers` does when it returns true, and when it does not. -/
theorem addPeers_added {ms ms' : Sink} {res : Result} (h : ms.addPeers res = some (ms', true)) :
    ms.Active res.infoHash ∧ ms' = { ms with
      incomingPeers := ms.incomingPeers.insert res.infoHash (insertPeers (ms.seen res.infoHash)
        (uniqueValidPeers res.peerAddrs (ms.seen res.infoHash)))
      incomingInfoHashes := ms.incomingInfoHashes.insert res.infoHash (ms.queued res.infoHash ++
        uniqueValidPeers res.peerAddrs (ms.seen res.infoHash)) } := by
  rcases Sink.addPeers_inv h with ⟨hadded, -⟩ | ⟨set, -, hactive, hset, hms⟩
  · cases hadded
  · refine ⟨hactive, ?_⟩
    unfold Sink.seen
    rw [hset]
    exact hms

theorem addPeers_refused {ms ms' : Sink} {res : Result} (h : ms.addPeers res = some (ms', false)) :
    ms' = ms := by
  rcases Sink.addPeers_inv h with ⟨-, hms⟩ | ⟨_, hadded, -⟩
  · exact hms
  · cases hadded

theorem onPeers_active {ms : Sink} {infoHash : Bytes} (h : ms.Active infoHash)
    (peers : List AddrPort) : ms.onPeers infoHash peers = { ms with
      incomingInfoHashes := ms.incomingInfoHashes.insert infoHash (ms.queued infoHash ++ peers) } :=
  if_neg (not_not.2 h)

theorem queued_insert (ms : Sink) (infoHash : Bytes) (queue : List AddrPort) :
    Sink.queued { ms with incomingInfoHashes := ms.incomingInfoHashes.insert infoHash queue }
      infoHash = queue := by
  simp [Sink.queued]

/-- The step of a goroutine. -/
theorem DownloadStep.follows {ms' : Sink} {others ds : List Download} {d : Download}
    {a : DownloadAction} {s : AttemptState} (hstep : DownloadStep s.run.sink others d a ms' ds)
    (h : ∀ infoHash, Follows s.run.sink infoHash (s.tenures infoHash))
    (hok : PeersFresh s (.download d.infoHash a)) :
    ∀ infoHash, Follows ms' infoHash (tenuresAfter s (.download d.infoHash a) infoHash) := by
  cases hstep with
  | start | abandonStart | acquire | onSuccess | onError | lock | abandonFlush | check
  | abandonError | release => exact h
  | send => exact fun infoHash => (h infoHash).congr rfl rfl
  | take => exact follows_forget h
  | @onPeers infoHash peer peers =>
    by_cases hactive : s.run.sink.Active infoHash
    · rw [onPeers_active hactive]
      refine follows_update h (fun h' hne => AList.lookup_insert_ne hne) (fun h' _ => rfl) ?_
      obtain ⟨t, ht, hgood⟩ := (h infoHash).good_of_active hactive
      obtain ⟨husable, hnodup, hnew⟩ := hok t ht
      rw [ht]
      refine ⟨(AList.mem_insert _).2 (.inl rfl), ?_⟩
      rw [queued_insert]
      exact hgood.onPeers husable hnodup hnew
    · have hsink : s.run.sink.onPeers infoHash peers = s.run.sink := if_pos hactive
      rw [hsink]
      refine follows_update h (fun h' _ => rfl) (fun h' _ => rfl) ?_
      have hfollows := h infoHash
      cases ht : s.tenures infoHash with
      | none => exact hactive
      | some t =>
        rw [ht] at hfollows
        exact (hactive hfollows.1).elim
  | @retry infoHash peer next ms' herr =>
    rcases s.run.sink.onLeechErrorLocked_cases infoHash with
      ⟨peer', rest, hqueue, hactive, hretry⟩ | ⟨-, hdiscard⟩
    · cases herr.symm.trans hretry
      refine follows_update h (fun h' hne => AList.lookup_insert_ne hne) (fun h' _ => rfl) ?_
      obtain ⟨t, ht, hgood⟩ := (h infoHash).good_of_active hactive
      rw [hqueue] at hgood
      rw [ht]
      refine ⟨(AList.mem_insert _).2 (.inl rfl), ?_⟩
      rw [queued_insert]
      exact hgood.attempt
    · cases herr.symm.trans hdiscard
  | @discard infoHash peer ms' herr =>
    rcases s.run.sink.onLeechErrorLocked_cases infoHash with
      ⟨peer', rest, -, -, hretry⟩ | ⟨-, hdiscard⟩
    · cases herr.symm.trans hretry
    · cases herr.symm.trans hdiscard
      exact follows_forget h

/-- One step of the system. -/
theorem attemptStep_follows {maxNLeeches : Int} {maxConcurrentDownloads : Nat}
    {s s' : AttemptState} {a : SinkAction}
    (hstep : (attemptSystem maxNLeeches maxConcurrentDownloads).step s a s')
    (hok : PeersFresh s a)
    (h : ∀ infoHash, Follows s.run.sink infoHash (s.tenures infoHash)) :
    ∀ infoHash, Follows s'.run.sink infoHash (s'.tenures infoHash) := by
  obtain ⟨hrun, htenures⟩ := hstep
  rw [htenures]
  generalize s'.run = run' at hrun
  cases hrun with
  | @accept res ms peer haccept =>
    obtain ⟨rest, hpeers, hms⟩ := sink_accept haccept
    simp only [tenuresAfter, haccept, hms]
    refine follows_update h (fun h' hne => AList.lookup_insert_ne hne)
      (fun h' hne => AList.lookup_insert_ne hne) ⟨(AList.mem_insert _).2 (.inl rfl), ?_⟩
    simpa [Sink.queued, Sink.seen] using Tenure.good_start hpeers
  | @refuse res ms hrefuse =>
    cases Sink.sink_refused hrefuse
    simp only [tenuresAfter, hrefuse]
    exact h
  | @addPeers res ms added hadd =>
    simp only [tenuresAfter, hadd]
    cases added with
    | false =>
      rw [addPeers_refused hadd]
      exact h
    | true =>
      obtain ⟨hactive, hms⟩ := addPeers_added hadd
      rw [hms]
      refine follows_update h (fun h' hne => AList.lookup_insert_ne hne)
        (fun h' hne => AList.lookup_insert_ne hne) ?_
      obtain ⟨t, ht, hgood⟩ := (h res.infoHash).good_of_active hactive
      rw [ht]
      refine ⟨(AList.mem_insert _).2 (.inl rfl), ?_⟩
      simpa [Sink.queued, Sink.seen] using hgood.addPeers (hok t ht)
  | receive => exact fun infoHash => (h infoHash).congr rfl rfl
  | terminate => exact fun infoHash => (h infoHash).congr rfl rfl
  | @download pre post ds d a ms hsplit hdownload => exact hdownload.follows h hok

/-! ## Runs -/

def loudPeer : AddrPort := ⟨.v4 #v[192, 0, 2, 7], 6881⟩

/-- The step of the only goroutine. -/
theorem onlyStep {maxNLeeches : Int} {maxConcurrentDownloads : Nat} {s : AttemptState}
    {d : Download} {a : DownloadAction} {ms : Sink} {ds : List Download}
    (hd : s.run.downloads = [d]) (hstep : DownloadStep s.run.sink [] d a ms ds) :
    (attemptSystem maxNLeeches maxConcurrentDownloads).step s (.download d.infoHash a)
      ⟨⟨ms, ds, s.run.log ++ a.events d.infoHash, s.run.sent ++ a.sent⟩,
        tenuresAfter s (.download d.infoHash a)⟩ := by
  have hrun := @SinkStep.download s.run [] [] ds d a ms hd hstep
  rw [List.nil_append, List.append_nil] at hrun
  exact ⟨hrun, rfl⟩

/-- The download from the only peer of an info hash is running. -/
theorem loudPeer_running : ∃ s, ((attemptSystem 1 1).restrict PeersFresh).Reachable s ∧
    s.run.downloads = [⟨[7], loudPeer, .running⟩] ∧ s.run.sink.Active [7] ∧
    s.run.sink.queued [7] = [] ∧ s.run.sink.terminated = false ∧
    s.tenures [7] = some ⟨[loudPeer], [loudPeer], [], [loudPeer]⟩ := by
  obtain ⟨ms, hms⟩ : ∃ ms, (newSink 1 1).sink ⟨[7], [loudPeer], 4⟩ = (ms, some loudPeer) :=
    ⟨_, rfl⟩
  have hnew : ((attemptSystem 1 1).restrict PeersFresh).Reachable
      ⟨⟨newSink 1 1, [], [], []⟩, fun _ => none⟩ := .init ⟨rfl, rfl⟩
  have haccept : (attemptSystem 1 1).step ⟨⟨newSink 1 1, [], [], []⟩, fun _ => none⟩
      (.sink ⟨[7], [loudPeer], 4⟩)
      ⟨⟨ms, [⟨[7], loudPeer, .spawned⟩], [.accepted [7] 4], []⟩,
        tenuresAfter ⟨⟨newSink 1 1, [], [], []⟩, fun _ => none⟩ (.sink ⟨[7], [loudPeer], 4⟩)⟩ :=
    ⟨SinkStep.accept hms, rfl⟩
  have haccepted := hnew.step ⟨haccept, trivial⟩
  have hstarted := haccepted.step ⟨onlyStep rfl (.start (by cases hms; rfl)), trivial⟩
  have hrunning := hstarted.step
    ⟨onlyStep rfl (.acquire (by cases hms; exact Nat.one_pos)), trivial⟩
  refine ⟨_, hrunning, rfl, ?_, ?_, ?_, ?_⟩
  all_goals cases hms
  · exact (AList.mem_insert _).2 (.inl rfl)
  · rfl
  · rfl
  · rfl

end DhtClient
