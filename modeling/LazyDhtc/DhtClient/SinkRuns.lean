-- SUMMARY: The interleavings of a sink's callers and download goroutines, and the bookkeeping that holds in all of them until the sink is terminated.
import LazyDhtc.DhtClient.Sink
import LazyDhtc.Lib.Transition

/-!
# Runs of a sink

Each accepted info hash is downloaded by one goroutine after another, a new one for
each peer that is tried. A step of the system here is one step of such a goroutine, or
a call by the owner of the sink. A goroutine that holds `drainMx` is in one of the
phases `locked` and `sending`.
-/

namespace DhtClient

/-! ## Goroutines -/

/-- Where a goroutine that runs `Sink.download` is. -/
inductive Phase where
  /-- before the check of `terminated` -/
  | spawned
  /-- for a place in `downloadSem` -/
  | waiting
  /-- in `Client.Do` -/
  | running
  /-- in `flush`, before it has `drainMx` -/
  | flushing (result : Metadata)
  | locked (result : Metadata)
  /-- in the send on `drain`, with `drainMx` held -/
  | sending (result : Metadata)
  /-- in `onLeechError`, before the check of `terminated` -/
  | failed
  | failing
  /-- about to give its place in `downloadSem` back -/
  | releasing

/-- The goroutine can still make its info hash leave the maps. -/
def Phase.outstanding : Phase → Bool
  | .sending _ => false
  | .releasing => false
  | _ => true

def Phase.holdsDrainMx : Phase → Bool
  | .locked _ => true
  | .sending _ => true
  | _ => false

def Phase.holdsDownloadSem : Phase → Bool
  | .spawned => false
  | .waiting => false
  | _ => true

structure Download where
  infoHash : Bytes
  peer : AddrPort
  phase : Phase

/-- The metadata that a goroutine is sending. -/
def Download.pending (d : Download) : Option Metadata :=
  match d.phase with
  | .sending result => some result
  | _ => none

inductive DownloadAction where
  /-- passes the check of `terminated` -/
  | start
  | acquire
  | onPeers (peers : List AddrPort)
  | onSuccess (result : Metadata)
  | onError
  | lock
  /-- takes the info hash out of the maps, to send the metadata -/
  | take (result : Metadata)
  | send (result : Metadata)
  | check
  | retry (peer : AddrPort)
  | discard
  /-- returns early because the sink is terminated -/
  | abandon
  | release

/-- A step of the goroutine `d` next to the goroutines `others`: what it makes of the sink,
    and the goroutines that take its place. -/
inductive DownloadStep (ms : Sink) (others : List Download) :
    Download → DownloadAction → Sink → List Download → Prop where
  | start {h : Bytes} {peer : AddrPort} : ms.terminated = false →
      DownloadStep ms others ⟨h, peer, .spawned⟩ .start ms [⟨h, peer, .waiting⟩]
  | abandonStart {h : Bytes} {peer : AddrPort} : ms.terminated = true →
      DownloadStep ms others ⟨h, peer, .spawned⟩ .abandon ms []
  | acquire {h : Bytes} {peer : AddrPort} :
      others.countP (fun d => d.phase.holdsDownloadSem) < ms.maxConcurrentDownloads →
      DownloadStep ms others ⟨h, peer, .waiting⟩ .acquire ms [⟨h, peer, .running⟩]
  | onPeers {h : Bytes} {peer : AddrPort} {peers : List AddrPort} :
      DownloadStep ms others ⟨h, peer, .running⟩ (.onPeers peers) (ms.onPeers h peers)
        [⟨h, peer, .running⟩]
  | onSuccess {h : Bytes} {peer : AddrPort} {result : Metadata} : result.infoHash = h →
      DownloadStep ms others ⟨h, peer, .running⟩ (.onSuccess result) ms
        [⟨h, peer, .flushing result⟩]
  | onError {h : Bytes} {peer : AddrPort} :
      DownloadStep ms others ⟨h, peer, .running⟩ .onError ms [⟨h, peer, .failed⟩]
  | lock {h : Bytes} {peer : AddrPort} {result : Metadata} :
      (∀ d ∈ others, d.phase.holdsDrainMx = false) →
      DownloadStep ms others ⟨h, peer, .flushing result⟩ .lock ms [⟨h, peer, .locked result⟩]
  | take {h : Bytes} {peer : AddrPort} {result : Metadata} : ms.terminated = false →
      DownloadStep ms others ⟨h, peer, .locked result⟩ (.take (ms.flushLocked result).2)
        (ms.flushLocked result).1 [⟨h, peer, .sending (ms.flushLocked result).2⟩]
  | abandonFlush {h : Bytes} {peer : AddrPort} {result : Metadata} : ms.terminated = true →
      DownloadStep ms others ⟨h, peer, .locked result⟩ .abandon ms [⟨h, peer, .releasing⟩]
  | send {h : Bytes} {peer : AddrPort} {result : Metadata} : ms.drain.length < drainCapacity →
      DownloadStep ms others ⟨h, peer, .sending result⟩ (.send result)
        { ms with drain := ms.drain ++ [result] } [⟨h, peer, .releasing⟩]
  | check {h : Bytes} {peer : AddrPort} : ms.terminated = false →
      DownloadStep ms others ⟨h, peer, .failed⟩ .check ms [⟨h, peer, .failing⟩]
  | abandonError {h : Bytes} {peer : AddrPort} : ms.terminated = true →
      DownloadStep ms others ⟨h, peer, .failed⟩ .abandon ms [⟨h, peer, .releasing⟩]
  | retry {h : Bytes} {peer next : AddrPort} {ms' : Sink} :
      ms.onLeechErrorLocked h = (ms', some next) →
      DownloadStep ms others ⟨h, peer, .failing⟩ (.retry next) ms'
        [⟨h, peer, .releasing⟩, ⟨h, next, .spawned⟩]
  | discard {h : Bytes} {peer : AddrPort} {ms' : Sink} :
      ms.onLeechErrorLocked h = (ms', none) →
      DownloadStep ms others ⟨h, peer, .failing⟩ .discard ms' [⟨h, peer, .releasing⟩]
  | release {h : Bytes} {peer : AddrPort} :
      DownloadStep ms others ⟨h, peer, .releasing⟩ .release ms []

/-! ## The system -/

/-- How info hashes enter and leave the maps. -/
inductive SinkEvent where
  | accepted (infoHash : Bytes) (family : Int64)
  | taken (result : Metadata)
  | discarded (infoHash : Bytes)

/-- A sink with its goroutines. `log` and `sent` record what has happened. -/
structure SinkRun where
  sink : Sink
  downloads : List Download
  log : List SinkEvent
  sent : List Metadata

inductive SinkAction where
  | sink (res : Result)
  | addPeers (res : Result)
  /-- the owner reads from `drain` -/
  | receive (result : Metadata)
  | terminate
  | download (infoHash : Bytes) (a : DownloadAction)

/-- The events of a goroutine's step. -/
def DownloadAction.events (infoHash : Bytes) : DownloadAction → List SinkEvent
  | .take result => [.taken result]
  | .discard => [.discarded infoHash]
  | _ => []

def DownloadAction.sent : DownloadAction → List Metadata
  | .send result => [result]
  | _ => []

inductive SinkStep : SinkRun → SinkAction → SinkRun → Prop where
  | accept {s : SinkRun} {res : Result} {ms : Sink} {peer : AddrPort} :
      s.sink.sink res = (ms, some peer) →
      SinkStep s (.sink res)
        { s with
          sink := ms
          downloads := ⟨res.infoHash, peer, .spawned⟩ :: s.downloads
          log := s.log ++ [.accepted res.infoHash res.family] }
  | refuse {s : SinkRun} {res : Result} {ms : Sink} : s.sink.sink res = (ms, none) →
      SinkStep s (.sink res) { s with sink := ms }
  | addPeers {s : SinkRun} {res : Result} {ms : Sink} {added : Bool} :
      s.sink.addPeers res = some (ms, added) → SinkStep s (.addPeers res) { s with sink := ms }
  | receive {s : SinkRun} {result : Metadata} {rest : List Metadata} :
      s.sink.drain = result :: rest →
      SinkStep s (.receive result) { s with sink := { s.sink with drain := rest } }
  | terminate {s : SinkRun} : (∀ d ∈ s.downloads, d.phase.holdsDrainMx = false) →
      SinkStep s .terminate { s with sink := s.sink.terminate }
  | download {s : SinkRun} {pre post ds : List Download} {d : Download} {a : DownloadAction}
      {ms : Sink} : s.downloads = pre ++ d :: post →
      DownloadStep s.sink (pre ++ post) d a ms ds →
      SinkStep s (.download d.infoHash a)
        { sink := ms
          downloads := pre ++ ds ++ post
          log := s.log ++ a.events d.infoHash
          sent := s.sent ++ a.sent }

/-- Every interleaving on a new sink. -/
def sinkSystem (maxNLeeches : Int) (maxConcurrentDownloads : Nat) :
    Transition.System SinkRun SinkAction where
  init s := s = ⟨newSink maxNLeeches maxConcurrentDownloads, [], [], []⟩
  step := SinkStep

/-! ## One step of a goroutine -/

def Phase.result : Phase → Option Metadata
  | .flushing result => some result
  | .locked result => some result
  | .sending result => some result
  | _ => none

/-- A goroutine delivers metadata of its own info hash. -/
def Download.Consistent (d : Download) : Prop :=
  ∀ result, d.phase.result = some result → result.infoHash = d.infoHash

/-- The number of goroutines that can still make an info hash leave the maps. -/
def outstanding (ds : List Download) (h : Bytes) : Nat :=
  ds.countP fun d => decide (d.infoHash = h) && d.phase.outstanding

theorem outstanding_append (ds ds' : List Download) (h : Bytes) :
    outstanding (ds ++ ds') h = outstanding ds h + outstanding ds' h := List.countP_append

theorem outstanding_cons (d : Download) (ds : List Download) (h : Bytes) :
    outstanding (d :: ds) h = outstanding [d] h + outstanding ds h :=
  outstanding_append [d] ds h

/-- What a goroutine's step can do before the sink is terminated: leave the maps alone,
    change the queue of its info hash, or hand its token in and take the info hash out of
    the maps. -/
theorem DownloadStep.sink_cases {ms ms' : Sink} {others ds : List Download} {d : Download}
    {a : DownloadAction} (hstep : DownloadStep ms others d a ms' ds) (hd : d.Consistent)
    (hrun : ms.terminated = false) :
    ((∀ h, outstanding ds h = outstanding [d] h) ∧ a.events d.infoHash = [] ∧
      ((∃ drain, ms' = { ms with drain := drain }) ∨
        ∃ queue, d.phase.outstanding = true ∧ ms.Active d.infoHash ∧ ms' = { ms with
          incomingInfoHashes := ms.incomingInfoHashes.insert d.infoHash queue })) ∨
    (d.phase.outstanding = true ∧ (∀ h, outstanding ds h = 0) ∧ ms' = ms.forget d.infoHash ∧
      (a.events d.infoHash = [.discarded d.infoHash] ∨
        ∃ result, a.events d.infoHash = [.taken result] ∧ result.infoHash = d.infoHash ∧
          result.family = (ms.incomingFamilies.lookup d.infoHash).getD 0)) := by
  cases hstep with
  | start | acquire | onSuccess | onError | lock | check =>
    exact .inl ⟨fun h => rfl, rfl, .inl ⟨_, rfl⟩⟩
  | send =>
    refine .inl ⟨fun h => ?_, rfl, .inl ⟨_, rfl⟩⟩
    simp [outstanding, Phase.outstanding]
  | release =>
    refine .inl ⟨fun h => ?_, rfl, .inl ⟨_, rfl⟩⟩
    simp [outstanding, Phase.outstanding]
  | abandonStart hterm => simp [hrun] at hterm
  | abandonFlush hterm => simp [hrun] at hterm
  | abandonError hterm => simp [hrun] at hterm
  | @onPeers infoHash peer peers =>
    refine .inl ⟨fun h => rfl, rfl, ?_⟩
    rcases ms.onPeers_cases infoHash peers with hsame | ⟨hactive, hqueue⟩
    · exact .inl ⟨_, hsame⟩
    · exact .inr ⟨_, rfl, hactive, hqueue⟩
  | @take infoHash peer result =>
    obtain rfl : result.infoHash = infoHash := hd _ rfl
    refine .inr ⟨rfl, fun h => ?_, rfl, .inr ⟨_, rfl, rfl, rfl⟩⟩
    simp [outstanding, Phase.outstanding]
  | @retry infoHash peer next ms' herr =>
    rcases ms.onLeechErrorLocked_cases infoHash with
      ⟨peer', rest, -, hactive, hretry⟩ | ⟨-, hdiscard⟩
    · cases herr.symm.trans hretry
      refine .inl ⟨fun h => ?_, rfl, .inr ⟨_, rfl, hactive, rfl⟩⟩
      simp [outstanding, Phase.outstanding]
    · cases herr.symm.trans hdiscard
  | @discard infoHash peer ms' herr =>
    rcases ms.onLeechErrorLocked_cases infoHash with ⟨peer', rest, -, -, hretry⟩ | ⟨-, hdiscard⟩
    · cases herr.symm.trans hretry
    · cases herr.symm.trans hdiscard
      refine .inr ⟨rfl, fun h => ?_, rfl, .inl rfl⟩
      simp [outstanding, Phase.outstanding]

theorem DownloadStep.consistent {ms ms' : Sink} {others ds : List Download} {d : Download}
    {a : DownloadAction} (hstep : DownloadStep ms others d a ms' ds) (hd : d.Consistent) :
    ∀ d' ∈ ds, d'.Consistent := by
  cases hstep with
  | lock =>
    simp only [List.mem_singleton, forall_eq]
    intro result hresult
    cases hresult
    exact hd _ rfl
  | @take infoHash peer result hrun =>
    simp only [List.mem_singleton, forall_eq]
    intro result' hresult
    cases hresult
    exact hd result rfl
  | onSuccess hhash =>
    simp only [List.mem_singleton, forall_eq]
    intro result hresult
    cases hresult
    exact hhash
  | retry =>
    intro d' hd' result hresult
    simp only [List.mem_cons, List.not_mem_nil, or_false] at hd'
    rcases hd' with rfl | rfl <;> cases hresult
  | abandonStart | release => simp
  | _ =>
    simp only [List.mem_singleton, forall_eq]
    intro result hresult
    cases hresult

/-- The number of goroutines that hold `drainMx`. -/
def holders (ds : List Download) : Nat := ds.countP fun d => d.phase.holdsDrainMx

theorem holders_append (ds ds' : List Download) :
    holders (ds ++ ds') = holders ds + holders ds' := List.countP_append

theorem holders_cons (d : Download) (ds : List Download) :
    holders (d :: ds) = holders [d] + holders ds := holders_append [d] ds

theorem holders_eq_zero {ds : List Download} :
    holders ds = 0 ↔ ∀ d ∈ ds, d.phase.holdsDrainMx = false := by
  rw [holders, List.countP_eq_zero]
  simp only [Bool.not_eq_true]

/-- A goroutine only starts to hold `drainMx` when no other does. -/
theorem DownloadStep.holders_le {ms ms' : Sink} {others ds : List Download} {d : Download}
    {a : DownloadAction} (hstep : DownloadStep ms others d a ms' ds)
    (hone : holders [d] + holders others ≤ 1) : holders ds + holders others ≤ 1 := by
  cases hstep with
  | lock hfree =>
    rw [holders_eq_zero.2 hfree]
    exact Nat.le_refl 1
  | take => exact hone
  | abandonStart | release => exact (Nat.add_le_add_right (Nat.zero_le _) _).trans hone
  | _ => exact (Nat.add_le_add_right (Nat.zero_le _) _).trans hone

/-! ## The sends -/

/-- The metadata that goroutines are sending. -/
def pending (ds : List Download) : List Metadata := ds.filterMap Download.pending

/-- The metadata taken out of the maps. -/
def takenOf (log : List SinkEvent) : List Metadata :=
  log.filterMap fun
    | .taken result => some result
    | _ => none

theorem pending_append (ds ds' : List Download) : pending (ds ++ ds') = pending ds ++ pending ds' :=
  List.filterMap_append

theorem takenOf_append (log log' : List SinkEvent) :
    takenOf (log ++ log') = takenOf log ++ takenOf log' := List.filterMap_append

theorem pending_eq_nil {ds : List Download} (h : holders ds = 0) : pending ds = [] := by
  refine List.filterMap_eq_nil_iff.2 fun d hd => ?_
  have hfree := holders_eq_zero.1 h d hd
  unfold Download.pending
  split
  · next hphase => simp [hphase, Phase.holdsDrainMx] at hfree
  · rfl

/-- What has been taken out of the maps is what has been sent, and what is being sent. -/
theorem DownloadStep.sends {ms ms' : Sink} {pre post ds : List Download} {d : Download}
    {a : DownloadAction} {taken sent : List Metadata}
    (hstep : DownloadStep ms (pre ++ post) d a ms' ds)
    (hone : holders [d] + holders (pre ++ post) ≤ 1)
    (hsends : taken = sent ++ pending (pre ++ d :: post)) :
    taken ++ takenOf (a.events d.infoHash) = sent ++ a.sent ++ pending (pre ++ ds ++ post) := by
  -- a goroutine that holds `drainMx` is the only one
  have halone : holders [d] = 1 → pending pre = [] ∧ pending post = [] := by
    intro hd
    rw [holders_append] at hone
    exact ⟨pending_eq_nil (by omega), pending_eq_nil (by omega)⟩
  rw [hsends, pending_append, pending_append, pending_append,
    show d :: post = [d] ++ post from rfl, pending_append]
  cases hstep with
  | take =>
    obtain ⟨hpre, hpost⟩ := halone rfl
    rw [hpre, hpost]
    rfl
  | send =>
    obtain ⟨hpre, hpost⟩ := halone rfl
    rw [hpre, hpost]
    rfl
  | onPeers =>
    simp only [DownloadAction.events, DownloadAction.sent, takenOf, List.filterMap_nil,
      List.append_nil, List.append_assoc]
  | _ =>
    simp only [DownloadAction.events, DownloadAction.sent, takenOf, List.filterMap_cons,
      List.filterMap_nil, List.append_nil, List.append_assoc]
    rfl

/-! ## The ledger of an info hash -/

def SinkEvent.infoHash : SinkEvent → Bytes
  | .accepted infoHash _ => infoHash
  | .taken result => result.infoHash
  | .discarded infoHash => infoHash

/-- An event of an info hash that is not in the maps, or is in them with the family it was
    accepted with; `none` for an event that must not happen. -/
def ledgerNext : Option Int64 → SinkEvent → Option (Option Int64)
  | none, .accepted _ family => some (some family)
  | some family, .taken result => if result.family = family then some none else none
  | some _, .discarded _ => some none
  | _, _ => none

/-- An info hash enters the maps and leaves them, through metadata of the family it was
    accepted with or a discard, in turn. The result is whether it is in the maps, and with
    which family. -/
def ledger (h : Bytes) (log : List SinkEvent) : Option (Option Int64) :=
  (log.filter fun e => decide (e.infoHash = h)).foldlM ledgerNext none

theorem ledger_append_of_ne {h : Bytes} {e : SinkEvent} (hne : e.infoHash ≠ h)
    (log : List SinkEvent) : ledger h (log ++ [e]) = ledger h log := by
  simp [ledger, List.filter_append, hne]

theorem ledger_append_of_eq {h : Bytes} {e : SinkEvent} (heq : e.infoHash = h)
    (log : List SinkEvent) : ledger h (log ++ [e]) = (ledger h log).bind fun l => ledgerNext l e := by
  simp [ledger, List.filter_append, heq, List.foldlM_append]

/-! ## Bookkeeping -/

/-- The number of goroutines that an info hash should have. -/
def Sink.tokens (ms : Sink) (h : Bytes) : Nat := if ms.Active h then 1 else 0

theorem Sink.tokens_of_active {ms : Sink} {h : Bytes} (hactive : ms.Active h) : ms.tokens h = 1 :=
  if_pos hactive

theorem Sink.tokens_of_not_active {ms : Sink} {h : Bytes} (hnot : ¬ ms.Active h) :
    ms.tokens h = 0 := if_neg hnot

theorem Sink.tokens_congr {ms ms' : Sink} {h : Bytes} (hiff : ms.Active h ↔ ms'.Active h) :
    ms.tokens h = ms'.tokens h := by
  simp only [Sink.tokens, hiff]

/-- What holds in every state. -/
structure SinkRun.Sends (s : SinkRun) : Prop where
  consistent : ∀ d ∈ s.downloads, d.Consistent
  holders_le : holders s.downloads ≤ 1
  sends : takenOf s.log = s.sent ++ pending s.downloads

/-- What holds until the sink is terminated. -/
structure SinkRun.Booked (s : SinkRun) : Prop where
  mapsAgree : s.sink.MapsAgree
  withinLimit : s.sink.WithinLimit
  tokens : ∀ h, outstanding s.downloads h = s.sink.tokens h
  ledger : ∀ h, ledger h s.log = some (s.sink.incomingFamilies.lookup h)

theorem SinkStep.sends {s s' : SinkRun} {a : SinkAction} (hstep : SinkStep s a s')
    (hs : s.Sends) : s'.Sends := by
  cases hstep with
  | @accept res ms peer _ =>
    refine ⟨List.forall_mem_cons.2 ⟨?_, hs.consistent⟩, ?_, ?_⟩
    · intro result hresult
      cases hresult
    · rw [holders_cons]
      simpa [holders, Phase.holdsDrainMx] using hs.holders_le
    · rw [takenOf_append, hs.sends]
      exact List.append_nil _
  | refuse | addPeers | receive | terminate => exact ⟨hs.consistent, hs.holders_le, hs.sends⟩
  | @download pre post ds d a ms hsplit hdown =>
    have hcons := hs.consistent
    have hone := hs.holders_le
    have hsends := hs.sends
    rw [hsplit] at hcons hone hsends
    have hmem : d ∈ pre ++ d :: post := by simp
    have hone' : holders [d] + holders (pre ++ post) ≤ 1 := by
      rw [holders_append, holders_cons] at hone
      rw [holders_append]
      omega
    refine ⟨fun d' hd' => ?_, ?_, ?_⟩
    · rw [List.append_assoc, List.mem_append, List.mem_append] at hd'
      rcases hd' with hd' | hd' | hd'
      · exact hcons d' (by simp [hd'])
      · exact hdown.consistent (hcons d hmem) d' hd'
      · exact hcons d' (by simp [hd'])
    · have := hdown.holders_le hone'
      rw [holders_append] at this
      rw [holders_append, holders_append]
      omega
    · rw [takenOf_append]
      exact hdown.sends hone' hsends

theorem DownloadStep.settings {ms ms' : Sink} {others ds : List Download} {d : Download}
    {a : DownloadAction} (hstep : DownloadStep ms others d a ms' ds) :
    ms'.settings = ms.settings := by
  cases hstep with
  | onPeers => exact Sink.settings_onPeers _ _ _
  | @retry infoHash peer next ms' herr =>
    have := ms.settings_onLeechErrorLocked infoHash
    rwa [herr] at this
  | @discard infoHash peer ms' herr =>
    have := ms.settings_onLeechErrorLocked infoHash
    rwa [herr] at this
  | _ => rfl

theorem SinkStep.settings {s s' : SinkRun} {a : SinkAction} (hstep : SinkStep s a s')
    (ha : a ≠ .terminate) : s'.sink.settings = s.sink.settings := by
  cases hstep with
  | @accept res ms peer hsink =>
    have := s.sink.settings_sink res
    rwa [hsink] at this
  | @refuse res ms hsink =>
    have := s.sink.settings_sink res
    rwa [hsink] at this
  | addPeers hadd => exact Sink.settings_addPeers hadd
  | receive => rfl
  | terminate => exact (ha rfl).elim
  | download hsplit hdown => exact hdown.settings

/-- A result that the sink accepts starts a download. -/
theorem SinkStep.of_accepted {s s' : SinkRun} {res : Result} {ms : Sink} {peer : AddrPort}
    (hstep : SinkStep s (.sink res) s') (hsink : s.sink.sink res = (ms, some peer)) :
    s' = { s with
      sink := ms
      downloads := ⟨res.infoHash, peer, .spawned⟩ :: s.downloads
      log := s.log ++ [.accepted res.infoHash res.family] } := by
  cases hstep with
  | refuse hrefuse => cases hsink.symm.trans hrefuse
  | accept haccept =>
    cases hsink.symm.trans haccept
    rfl

/-- One that it refuses changes nothing. -/
theorem SinkStep.of_refused {s s' : SinkRun} {res : Result} {ms : Sink}
    (hstep : SinkStep s (.sink res) s') (hsink : s.sink.sink res = (ms, none)) : s' = s := by
  cases hstep with
  | accept haccept => cases hsink.symm.trans haccept
  | refuse hrefuse => rw [Sink.sink_refused hrefuse]

theorem SinkStep.terminated_eq {s s' : SinkRun} {a : SinkAction} (hstep : SinkStep s a s')
    (ha : a ≠ .terminate) : s'.sink.terminated = s.sink.terminated :=
  congrArg (fun x => x.2.2) (hstep.settings ha)

/-- Once terminated, a sink stays terminated. -/
theorem SinkStep.terminated_mono {s s' : SinkRun} {a : SinkAction} (hstep : SinkStep s a s')
    (hs : s'.sink.terminated = false) : s.sink.terminated = false := by
  by_cases ha : a = .terminate
  · subst ha
    cases hstep
    cases hs
  · rwa [← hstep.terminated_eq ha]

/-- Nothing is being sent once the sink is terminated. -/
def SinkRun.NoLateSend (s : SinkRun) : Prop :=
  s.sink.terminated = true → ∀ d ∈ s.downloads, ∀ result, d.phase ≠ .sending result

theorem SinkStep.noLateSend {s s' : SinkRun} {a : SinkAction} (hstep : SinkStep s a s')
    (hs : s.NoLateSend) : s'.NoLateSend := by
  intro hterm d' hd' result hphase
  by_cases ha : a = .terminate
  · subst ha
    cases hstep with
    | terminate hfree =>
      -- a goroutine that sends holds `drainMx`
      have hheld := hfree d' hd'
      rw [hphase] at hheld
      cases hheld
  · rw [hstep.terminated_eq ha] at hterm
    cases hstep with
    | accept =>
      rcases List.mem_cons.1 hd' with rfl | hd'
      · cases hphase
      · exact hs hterm d' hd' result hphase
    | refuse | addPeers | receive => exact hs hterm d' hd' result hphase
    | terminate => exact ha rfl
    | @download pre post ds d a ms hsplit hdown =>
      have hold : d' ∈ pre ∨ d' ∈ post → False := fun hin =>
        hs hterm d' (by rw [hsplit]; rcases hin with h | h <;> simp [h]) result hphase
      simp only [List.mem_append] at hd'
      rcases hd' with (hd' | hd') | hd'
      · exact hold (.inl hd')
      · cases hdown with
        | take hrun => simp [hterm] at hrun
        | retry =>
          simp only [List.mem_cons, List.not_mem_nil, or_false] at hd'
          rcases hd' with rfl | rfl <;> cases hphase
        | abandonStart | release => cases hd'
        | _ =>
          cases List.mem_singleton.1 hd'
          cases hphase
      · exact hold (.inr hd')

/-- The bookkeeping depends on the maps only through their keys and families. -/
theorem SinkRun.Booked.of_same {s : SinkRun} (hs : s.Booked) {ms : Sink} {ds : List Download}
    {sent : List Metadata} (hmaps : ms.MapsAgree) (hlimit : ms.WithinLimit)
    (hactive : ∀ h, ms.Active h ↔ s.sink.Active h)
    (hfamilies : ms.incomingFamilies = s.sink.incomingFamilies)
    (houtstanding : ∀ h, outstanding ds h = outstanding s.downloads h) :
    SinkRun.Booked ⟨ms, ds, s.log, sent⟩ where
  mapsAgree := hmaps
  withinLimit := hlimit
  tokens h := (houtstanding h).trans ((hs.tokens h).trans (Sink.tokens_congr (hactive h).symm))
  ledger h := by
    rw [hs.ledger, hfamilies]

/-- An accepted result starts one goroutine, the only one of its info hash. -/
theorem SinkRun.Booked.accept {s : SinkRun} (hs : s.Booked) {res : Result} {peer : AddrPort}
    {rest : List AddrPort} {set : GoMap AddrPort Unit}
    (hroom : (s.sink.incomingInfoHashes.len : Int) < s.sink.maxNLeeches)
    (hnew : ¬ s.sink.Active res.infoHash) :
    SinkRun.Booked
      { s with
        sink := { s.sink with
          incomingInfoHashes := s.sink.incomingInfoHashes.insert res.infoHash rest
          incomingFamilies := s.sink.incomingFamilies.insert res.infoHash res.family
          incomingPeers := s.sink.incomingPeers.insert res.infoHash set }
        downloads := ⟨res.infoHash, peer, .spawned⟩ :: s.downloads
        log := s.log ++ [.accepted res.infoHash res.family] } where
  mapsAgree h := by
    simp only [AList.mem_insert, (hs.mapsAgree h).1, (hs.mapsAgree h).2, and_self]
  withinLimit := by
    have hlen := AList.len_insert_of_lookup_none (AList.lookup_eq_none.2 hnew) rest
    unfold Sink.WithinLimit
    dsimp only
    omega
  tokens h := by
    rw [outstanding_cons, hs.tokens]
    by_cases heq : res.infoHash = h
    · subst heq
      rw [Sink.tokens_of_not_active hnew,
        Sink.tokens_of_active (AList.mem_insert _ |>.2 (.inl rfl))]
      simp [outstanding, Phase.outstanding]
    · have hnone : outstanding [⟨res.infoHash, peer, .spawned⟩] h = 0 := by
        simp [outstanding, heq]
      rw [hnone, Nat.zero_add]
      refine Sink.tokens_congr ?_
      simp only [Sink.Active, AList.mem_insert, Ne.symm heq, false_or]
  ledger h := by
    dsimp only
    by_cases heq : res.infoHash = h
    · subst heq
      have hfamily : s.sink.incomingFamilies.lookup res.infoHash = none :=
        AList.lookup_eq_none.2 fun hin => hnew ((hs.mapsAgree _).1.1 hin)
      have hlog := ledger_append_of_eq (h := res.infoHash)
        (e := .accepted res.infoHash res.family) rfl s.log
      rw [hlog, hs.ledger, hfamily, AList.lookup_insert_eq_ite, if_pos rfl]
      rfl
    · rw [ledger_append_of_ne (e := .accepted res.infoHash res.family) heq, hs.ledger,
        AList.lookup_insert_ne (Ne.symm heq)]

/-- The goroutine that has the token of its info hash gives it up with the maps' entry and
    one last event. -/
theorem SinkRun.Booked.forget {s : SinkRun} (hs : s.Booked) {d : Download} {e : SinkEvent}
    {ds : List Download} {sent : List Metadata} (htoken : d.phase.outstanding = true)
    (hout : ∀ h, outstanding ds h + outstanding [d] h = outstanding s.downloads h)
    (hhash : e.infoHash = d.infoHash)
    (hnext : ∀ family, s.sink.incomingFamilies.lookup d.infoHash = some family →
      ledgerNext (some family) e = some none) :
    SinkRun.Booked ⟨s.sink.forget d.infoHash, ds, s.log ++ [e], sent⟩ := by
  have hone : outstanding [d] d.infoHash = 1 := by simp [outstanding, htoken]
  have hactive : s.sink.Active d.infoHash := by
    by_contra hnot
    have htokens := hs.tokens d.infoHash
    rw [← hout, hone, Sink.tokens_of_not_active hnot] at htokens
    omega
  refine ⟨hs.mapsAgree.forget _, hs.withinLimit.forget _, fun h => ?_, fun h => ?_⟩
  · have hout' := hout h
    rw [hs.tokens] at hout'
    by_cases heq : h = d.infoHash
    · subst heq
      rw [hone, Sink.tokens_of_active hactive] at hout'
      rw [Sink.tokens_of_not_active (by simp)]
      exact Nat.succ_injective hout'
    · have hzero : outstanding [d] h = 0 := by simp [outstanding, Ne.symm heq]
      rw [hzero] at hout'
      exact hout'.trans (Sink.tokens_congr (by simp [heq]))
  · dsimp only
    by_cases heq : h = d.infoHash
    · subst heq
      obtain ⟨family, hfamily⟩ : ∃ family,
          s.sink.incomingFamilies.lookup d.infoHash = some family :=
        Option.isSome_iff_exists.1 (AList.lookup_isSome.2 ((hs.mapsAgree _).1.2 hactive))
      have herase : (s.sink.forget d.infoHash).incomingFamilies.lookup d.infoHash = none :=
        AList.lookup_erase _ _
      rw [ledger_append_of_eq hhash, hs.ledger, hfamily, herase]
      exact hnext family hfamily
    · rw [ledger_append_of_ne (by rw [hhash]; exact Ne.symm heq), hs.ledger]
      exact congrArg some (AList.lookup_erase_ne heq).symm

theorem SinkStep.booked {s s' : SinkRun} {a : SinkAction} (hstep : SinkStep s a s')
    (hsends : s.Sends) (hs : s.Booked) (hrun : s'.sink.terminated = false) : s'.Booked := by
  have hrun_s := hstep.terminated_mono hrun
  cases hstep with
  | @accept res ms peer hsink =>
    rcases s.sink.sink_cases res with hsame | ⟨peer', rest, set, -, hroom, hnew, hstart⟩
    · cases hsink.symm.trans hsame
    cases hsink.symm.trans hstart
    exact hs.accept hroom hnew
  | @refuse res ms hsink =>
    cases Sink.sink_refused hsink
    exact hs
  | @addPeers res ms added hadd =>
    rcases Sink.addPeers_cases hs.mapsAgree res with hsame | ⟨queue, set, hactive, hadded⟩
    · cases hadd.symm.trans hsame
      exact hs
    · cases hadd.symm.trans hadded
      refine hs.of_same (fun h => ?_) (hs.withinLimit.requeue hactive queue)
        (Sink.active_requeue hactive queue) rfl fun h => rfl
      have hpeers : res.infoHash ∈ s.sink.incomingPeers := (hs.mapsAgree _).2.2 hactive
      rw [Sink.active_requeue hactive, (hs.mapsAgree h).1, AList.mem_insert]
      refine ⟨Iff.rfl, fun hin => ?_, fun hin => .inr ((hs.mapsAgree h).2.2 hin)⟩
      rcases hin with rfl | hin
      · exact hactive
      · exact (hs.mapsAgree h).2.1 hin
  | receive =>
    exact hs.of_same hs.mapsAgree hs.withinLimit (fun h => Iff.rfl) rfl fun h => rfl
  | terminate => cases hrun
  | @download pre post ds d a ms hsplit hdown =>
    have hd : d.Consistent := hsends.consistent d (by rw [hsplit]; simp)
    have hout : ∀ h, outstanding (pre ++ ds ++ post) h + outstanding [d] h =
        outstanding s.downloads h + outstanding ds h := by
      intro h
      rw [hsplit, outstanding_append, outstanding_append, outstanding_append,
        outstanding_cons d post]
      omega
    rcases hdown.sink_cases hd hrun_s with
      ⟨hsame, hevents, ⟨drain, rfl⟩ | ⟨queue, -, hactive, rfl⟩⟩ | ⟨htoken, hnone, rfl, hevents⟩
    · rw [hevents, List.append_nil]
      refine hs.of_same hs.mapsAgree hs.withinLimit (fun h => Iff.rfl) rfl fun h => ?_
      have := hout h
      rw [hsame] at this
      omega
    · rw [hevents, List.append_nil]
      refine hs.of_same (hs.mapsAgree.requeue hactive queue) (hs.withinLimit.requeue hactive queue)
        (Sink.active_requeue hactive queue) rfl fun h => ?_
      have := hout h
      rw [hsame] at this
      omega
    · have hout' : ∀ h, outstanding (pre ++ ds ++ post) h + outstanding [d] h =
          outstanding s.downloads h := fun h => by rw [hout, hnone, Nat.add_zero]
      rcases hevents with hdiscard | ⟨result, htake, hhash, hfam⟩
      · rw [hdiscard]
        exact hs.forget htoken hout' rfl fun family _ => rfl
      · rw [htake]
        refine hs.forget htoken hout' hhash fun family hfamily => ?_
        rw [hfamily] at hfam
        simp only [ledgerNext, hfam, Option.getD_some, if_true]

theorem sinkSystem_sends {maxNLeeches : Int} {maxConcurrentDownloads : Nat} {s : SinkRun}
    (h : (sinkSystem maxNLeeches maxConcurrentDownloads).Reachable s) : s.Sends := by
  refine Transition.System.invariant ?_ ?_ h
  · rintro _ rfl
    exact ⟨fun d hd => (List.not_mem_nil hd).elim, Nat.zero_le _, rfl⟩
  · intro s a s' _ hs hstep
    exact SinkStep.sends hstep hs

theorem sinkSystem_booked {maxNLeeches : Int} {maxConcurrentDownloads : Nat} {s : SinkRun}
    (h : (sinkSystem maxNLeeches maxConcurrentDownloads).Reachable s) :
    s.sink.terminated = false → s.Booked := by
  refine Transition.System.invariant (P := fun s : SinkRun => s.sink.terminated = false → s.Booked)
    ?_ ?_ h
  · rintro _ rfl _
    refine ⟨Sink.newSink_mapsAgree _ _, Sink.newSink_withinLimit _ _, fun h => ?_, fun h => rfl⟩
    have hnot : ¬ (newSink maxNLeeches maxConcurrentDownloads).Active h := AList.notMem_empty h
    exact (Sink.tokens_of_not_active hnot).symm
  · intro s a s' hreach hs hstep hrun
    exact SinkStep.booked hstep (sinkSystem_sends hreach)
      (hs (SinkStep.terminated_mono hstep hrun)) hrun

theorem sinkSystem_limits {maxNLeeches : Int} {maxConcurrentDownloads : Nat} {s : SinkRun}
    (h : (sinkSystem maxNLeeches maxConcurrentDownloads).Reachable s) :
    s.sink.maxNLeeches = maxNLeeches ∧ s.sink.maxConcurrentDownloads = maxConcurrentDownloads := by
  refine Transition.System.invariant (P := fun s : SinkRun => s.sink.maxNLeeches = maxNLeeches ∧
    s.sink.maxConcurrentDownloads = maxConcurrentDownloads) ?_ ?_ h
  · rintro _ rfl
    exact ⟨rfl, rfl⟩
  · intro s a s' _ hs hstep
    by_cases ha : a = .terminate
    · subst ha
      cases hstep
      exact hs
    · have hset := SinkStep.settings hstep ha
      exact ⟨(congrArg (fun x => x.1) hset).trans hs.1, (congrArg (fun x => x.2.1) hset).trans hs.2⟩

theorem sinkSystem_noLateSend {maxNLeeches : Int} {maxConcurrentDownloads : Nat} {s : SinkRun}
    (h : (sinkSystem maxNLeeches maxConcurrentDownloads).Reachable s) : s.NoLateSend := by
  refine Transition.System.invariant ?_ ?_ h
  · rintro _ rfl _ d hd
    cases hd
  · intro s a s' _ hs hstep
    exact SinkStep.noLateSend hstep hs

theorem pending_length_le (ds : List Download) : (pending ds).length ≤ holders ds := by
  induction ds with
  | nil => exact Nat.le_refl _
  | cons d ds ih =>
    rw [holders_cons, show d :: ds = [d] ++ ds from rfl, pending_append, List.length_append]
    refine Nat.add_le_add ?_ ih
    obtain ⟨h, peer, phase⟩ := d
    cases phase <;> first | exact Nat.le_refl _ | exact Nat.zero_le _

end DhtClient
