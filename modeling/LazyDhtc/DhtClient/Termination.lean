-- SUMMARY: Terminate against calls and downloads that have passed their check of terminated: nothing is sent on the closed channel, and when no download starts late.
import LazyDhtc.DhtClient.SinkRuns

/-!
# Termination of a sink

Every method of the sink checks `terminated` before it waits for something: `Sink` and
`AddPeers` for the lock, `download` for a place in `downloadSem`. The system here has a
step for each of the two sides of such a window, and for the parts of `Terminate`.
-/

namespace DhtClient

/-! ## Sections -/

namespace Sink

/-- `Sink.Sink` after its check of `terminated`. -/
def sinkLocked (ms : Sink) (res : Result) : Sink × Option AddrPort :=
  if ms.maxNLeeches ≤ ms.incomingInfoHashes.len then (ms, none)
  else if res.infoHash ∈ ms.incomingInfoHashes then (ms, none)
  else
    let peerAddrs := uniqueValidPeers res.peerAddrs ∅
    match peerAddrs with
    | peer :: rest =>
      ({ ms with
        incomingInfoHashes := ms.incomingInfoHashes.insert res.infoHash rest
        incomingFamilies := ms.incomingFamilies.insert res.infoHash res.family
        incomingPeers := ms.incomingPeers.insert res.infoHash (peerSet peerAddrs) }, some peer)
    | [] => (ms, none)

/-- `AddPeers` after its check of `terminated`. -/
def addPeersLocked (ms : Sink) (res : Result) : Option (Sink × Bool) :=
  if res.infoHash ∉ ms.incomingInfoHashes then some (ms, false)
  else
    let peers :=
      uniqueValidPeers res.peerAddrs ((ms.incomingPeers.lookup res.infoHash).getD ∅)
    if peers = [] then some (ms, false)
    else
      match ms.incomingPeers.lookup res.infoHash with
      | none => none
      | some set =>
        some ({ ms with
          incomingPeers := ms.incomingPeers.insert res.infoHash (insertPeers set peers)
          incomingInfoHashes :=
            ms.incomingInfoHashes.insert res.infoHash (ms.queued res.infoHash ++ peers) }, true)

theorem sink_eq_sinkLocked (ms : Sink) (res : Result) :
    ms.sink res = if ms.terminated then (ms, none) else ms.sinkLocked res := rfl

theorem addPeers_eq_addPeersLocked (ms : Sink) (res : Result) :
    ms.addPeers res = if ms.terminated then some (ms, false) else ms.addPeersLocked res := rfl

theorem terminated_sinkLocked (ms : Sink) (res : Result) :
    (ms.sinkLocked res).1.terminated = ms.terminated := by
  unfold sinkLocked
  split
  · rfl
  split
  · rfl
  dsimp only
  split <;> rfl

theorem terminated_addPeersLocked {ms ms' : Sink} {res : Result} {added : Bool}
    (h : ms.addPeersLocked res = some (ms', added)) : ms'.terminated = ms.terminated := by
  unfold addPeersLocked at h
  split at h
  · cases h; rfl
  dsimp only at h
  split at h
  · cases h; rfl
  split at h
  · cases h
  · cases h; rfl

end Sink

/-! ## Goroutines and calls -/

/-- A goroutine of `Sink.download`: it has taken its place in `downloadSem` and is about to
    call `Client.Do`, or it is where its phase says. -/
inductive Leech where
  | starting (infoHash : Bytes) (peer : AddrPort)
  | download (d : Download)

/-- The goroutine as the locks see it: one that is about to call `Client.Do` holds what one
    holds that has called it. -/
def Leech.view : Leech → Download
  | .starting infoHash peer => ⟨infoHash, peer, .running⟩
  | .download d => d

/-- The goroutine has passed its check of `terminated`, and `Client.Do` has not begun. -/
def Leech.parked : Leech → Bool
  | .starting _ _ => true
  | .download ⟨_, _, .waiting⟩ => true
  | .download _ => false

/-- A call by the owner of the sink that has passed its check of `terminated`. -/
inductive SinkCall where
  | sink (res : Result)
  | addPeers (res : Result)

/-- Where a call of `Terminate` is. -/
inductive TerminatePhase where
  /-- for `drainMx` -/
  | waiting
  | locked
  /-- `terminated` is set, and `drain` not yet closed -/
  | swapped
  /-- about to return -/
  | unlocked

def TerminatePhase.holdsDrainMx : TerminatePhase → Bool
  | .locked => true
  | .swapped => true
  | _ => false

/-! ## The system -/

/-- A sink with its goroutines and the calls that are under way. `returned` says that a call
    of `Terminate` has returned. -/
structure TerminationRun where
  sink : Sink
  goroutines : List Leech
  calls : List SinkCall
  terminates : List TerminatePhase
  drainClosed : Bool
  returned : Bool

inductive TerminationAction where
  | call (c : SinkCall)
  | enter (c : SinkCall)
  | receive (result : Metadata)
  | download (infoHash : Bytes) (a : DownloadAction)
  /-- `Client.Do` begins -/
  | begin (infoHash : Bytes) (peer : AddrPort)
  | terminate
  | lockTerminate
  | swap
  | unlockTerminate
  | returnTerminate

inductive TerminationStep : TerminationRun → TerminationAction → TerminationRun → Prop where
  | call {s : TerminationRun} {c : SinkCall} : s.sink.terminated = false →
      TerminationStep s (.call c) { s with calls := c :: s.calls }
  | accept {s : TerminationRun} {pre post : List SinkCall} {res : Result} {ms : Sink}
      {peer : AddrPort} : s.calls = pre ++ .sink res :: post →
      s.sink.sinkLocked res = (ms, some peer) →
      TerminationStep s (.enter (.sink res))
        { s with
          sink := ms
          calls := pre ++ post
          goroutines := .download ⟨res.infoHash, peer, .spawned⟩ :: s.goroutines }
  | refuse {s : TerminationRun} {pre post : List SinkCall} {res : Result} {ms : Sink} :
      s.calls = pre ++ .sink res :: post → s.sink.sinkLocked res = (ms, none) →
      TerminationStep s (.enter (.sink res)) { s with sink := ms, calls := pre ++ post }
  | addPeers {s : TerminationRun} {pre post : List SinkCall} {res : Result} {ms : Sink}
      {added : Bool} : s.calls = pre ++ .addPeers res :: post →
      s.sink.addPeersLocked res = some (ms, added) →
      TerminationStep s (.enter (.addPeers res)) { s with sink := ms, calls := pre ++ post }
  | receive {s : TerminationRun} {result : Metadata} {rest : List Metadata} :
      s.sink.drain = result :: rest →
      TerminationStep s (.receive result) { s with sink := { s.sink with drain := rest } }
  | download {s : TerminationRun} {pre post : List Leech} {ds : List Download} {d : Download}
      {a : DownloadAction} {ms : Sink} : s.goroutines = pre ++ .download d :: post →
      DownloadStep s.sink ((pre ++ post).map Leech.view) d a ms ds → a ≠ .acquire →
      (a = .lock → ∀ p ∈ s.terminates, p.holdsDrainMx = false) →
      TerminationStep s (.download d.infoHash a)
        { s with sink := ms, goroutines := pre ++ ds.map .download ++ post }
  | acquire {s : TerminationRun} {pre post : List Leech} {h : Bytes} {peer : AddrPort} :
      s.goroutines = pre ++ .download ⟨h, peer, .waiting⟩ :: post →
      (pre ++ post).countP (fun g => g.view.phase.holdsDownloadSem) <
        s.sink.maxConcurrentDownloads →
      TerminationStep s (.download h .acquire)
        { s with goroutines := pre ++ [.starting h peer] ++ post }
  | begin {s : TerminationRun} {pre post : List Leech} {h : Bytes} {peer : AddrPort} :
      s.goroutines = pre ++ .starting h peer :: post →
      TerminationStep s (.begin h peer)
        { s with goroutines := pre ++ [.download ⟨h, peer, .running⟩] ++ post }
  | terminate {s : TerminationRun} :
      TerminationStep s .terminate { s with terminates := .waiting :: s.terminates }
  | lockTerminate {s : TerminationRun} {pre post : List TerminatePhase} :
      s.terminates = pre ++ .waiting :: post →
      (∀ p ∈ s.terminates, p.holdsDrainMx = false) →
      (∀ g ∈ s.goroutines, g.view.phase.holdsDrainMx = false) →
      TerminationStep s .lockTerminate { s with terminates := pre ++ [.locked] ++ post }
  | swap {s : TerminationRun} {pre post : List TerminatePhase} :
      s.terminates = pre ++ .locked :: post → s.sink.terminated = false →
      TerminationStep s .swap
        { s with sink := s.sink.terminate, terminates := pre ++ [.swapped] ++ post }
  | close {s : TerminationRun} {pre post : List TerminatePhase} :
      s.terminates = pre ++ .swapped :: post →
      TerminationStep s .unlockTerminate
        { s with terminates := pre ++ [.unlocked] ++ post, drainClosed := true }
  /-- the sink has been terminated by another call -/
  | unlock {s : TerminationRun} {pre post : List TerminatePhase} :
      s.terminates = pre ++ .locked :: post → s.sink.terminated = true →
      TerminationStep s .unlockTerminate { s with terminates := pre ++ [.unlocked] ++ post }
  | returnTerminate {s : TerminationRun} {pre post : List TerminatePhase} :
      s.terminates = pre ++ .unlocked :: post →
      TerminationStep s .returnTerminate { s with terminates := pre ++ post, returned := true }

/-- Every interleaving on a new sink. -/
def terminationSystem (maxNLeeches : Int) (maxConcurrentDownloads : Nat) :
    Transition.System TerminationRun TerminationAction where
  init s := s = ⟨newSink maxNLeeches maxConcurrentDownloads, [], [], [], false, false⟩
  step := TerminationStep

/-- `Client.Do` does not begin after `Terminate` has returned, and nothing is sent on a closed
    channel. -/
def StaysStopped (s : TerminationRun) (a : TerminationAction) : Prop :=
  (∀ h peer, a = .begin h peer → s.returned = false) ∧
  ∀ h result, a = .download h (.send result) → s.drainClosed = false

/-- `Terminate` returns only while no goroutine is between its check of `terminated` and the
    start of `Client.Do`. -/
def ReturnsIdle (s : TerminationRun) (a : TerminationAction) : Prop :=
  a = .returnTerminate → ∀ g ∈ s.goroutines, g.parked = false

/-! ## Steps of a goroutine -/

/-- A goroutine only starts to hold `drainMx` by locking it. -/
theorem DownloadStep.holdsDrainMx {ms ms' : Sink} {others ds : List Download} {d : Download}
    {a : DownloadAction} (hstep : DownloadStep ms others d a ms' ds) (ha : a ≠ .lock)
    (hd : d.phase.holdsDrainMx = false) : ∀ d' ∈ ds, d'.phase.holdsDrainMx = false := by
  cases hstep with
  | lock => exact absurd rfl ha
  | take => cases hd
  | abandonStart | release => simp
  | retry => simp [Phase.holdsDrainMx]
  | _ => simp [Phase.holdsDrainMx]

/-- In a terminated sink no goroutine passes a check: it neither starts to send nor to wait
    for its download. -/
theorem DownloadStep.of_terminated {ms ms' : Sink} {others ds : List Download} {d : Download}
    {a : DownloadAction} (hstep : DownloadStep ms others d a ms' ds)
    (hterm : ms.terminated = true) :
    ∀ d' ∈ ds, (∀ result, d'.phase ≠ .sending result) ∧ d'.phase ≠ .waiting := by
  cases hstep with
  | start hrun | take hrun | check hrun => simp [hterm] at hrun
  | abandonStart | release => simp
  | retry => simp
  | _ => simp

/-! ## What holds in every state -/

/-- What replaces an element of a list has the property that all elements have. -/
theorem forall_mem_replace {α : Type*} {P : α → Prop} {pre post xs : List α} {x : α}
    (h : ∀ y ∈ pre ++ x :: post, P y) (hxs : ∀ y ∈ xs, P y) : ∀ y ∈ pre ++ xs ++ post, P y := by
  intro y hy
  simp only [List.mem_append] at hy
  rcases hy with (hy | hy) | hy
  · exact h y (by simp [hy])
  · exact hxs y hy
  · exact h y (by simp [hy])

structure TerminationRun.Inv (s : TerminationRun) : Prop where
  /-- `Terminate` shares `drainMx` with no goroutine -/
  exclusive : (∃ p ∈ s.terminates, p.holdsDrainMx = true) →
    ∀ g ∈ s.goroutines, g.view.phase.holdsDrainMx = false
  notSending : s.sink.terminated = true →
    ∀ g ∈ s.goroutines, ∀ result, g.view.phase ≠ .sending result
  swapped : ∀ p ∈ s.terminates, s.sink.terminated = true ∨ p = .waiting ∨ p = .locked
  ended : s.drainClosed = true ∨ s.returned = true → s.sink.terminated = true

/-- A step that only changes the maps, the channel or the calls. -/
theorem TerminationRun.Inv.of_sink {s : TerminationRun} (hs : s.Inv) {ms : Sink}
    (hterm : ms.terminated = s.sink.terminated) (calls : List SinkCall) :
    TerminationRun.Inv { s with sink := ms, calls := calls } where
  exclusive := hs.exclusive
  notSending h := hs.notSending (hterm ▸ h)
  swapped p hp := by
    rw [hterm]
    exact hs.swapped p hp
  ended h := hterm.trans (hs.ended h)

/-- A step by which a goroutine is replaced by others that neither hold `drainMx` if it does
    not, nor send in a terminated sink. -/
theorem TerminationRun.Inv.replace {s : TerminationRun} (hs : s.Inv) {pre post gs : List Leech}
    {g : Leech} {ms : Sink} (hsplit : s.goroutines = pre ++ g :: post)
    (hterm : ms.terminated = s.sink.terminated)
    (hheld : (∃ p ∈ s.terminates, p.holdsDrainMx = true) →
      ∀ g' ∈ gs, g'.view.phase.holdsDrainMx = false)
    (hsending : s.sink.terminated = true → ∀ g' ∈ gs, ∀ result, g'.view.phase ≠ .sending result) :
    TerminationRun.Inv { s with sink := ms, goroutines := pre ++ gs ++ post } where
  exclusive h := by
    have hold := hs.exclusive h
    rw [hsplit] at hold
    exact forall_mem_replace hold (hheld h)
  notSending h := by
    rw [hterm] at h
    have hold := hs.notSending h
    rw [hsplit] at hold
    exact forall_mem_replace hold (hsending h)
  swapped p hp := by
    rw [hterm]
    exact hs.swapped p hp
  ended h := hterm.trans (hs.ended h)

/-- A step of `Terminate` that leaves its hold of `drainMx` as it is, or ends it. -/
theorem TerminationRun.Inv.terminate {s : TerminationRun} (hs : s.Inv)
    {pre post ps : List TerminatePhase} {p : TerminatePhase}
    (hsplit : s.terminates = pre ++ p :: post)
    (hheld : ∀ p' ∈ ps, p'.holdsDrainMx = true → p.holdsDrainMx = true)
    (hswapped : ∀ p' ∈ ps, s.sink.terminated = true ∨ p' = .waiting ∨ p' = .locked)
    {closed returned : Bool}
    (hended : closed = true ∨ returned = true → s.sink.terminated = true) :
    TerminationRun.Inv { s with
      terminates := pre ++ ps ++ post, drainClosed := closed, returned := returned } where
  exclusive := by
    rintro ⟨p', hp', hholds⟩
    refine hs.exclusive ?_
    simp only [List.mem_append] at hp'
    rcases hp' with (hp' | hp') | hp'
    · exact ⟨p', by simp [hsplit, hp'], hholds⟩
    · exact ⟨p, by simp [hsplit], hheld p' hp' hholds⟩
    · exact ⟨p', by simp [hsplit, hp'], hholds⟩
  notSending := hs.notSending
  swapped := by
    have hold := hs.swapped
    rw [hsplit] at hold
    exact forall_mem_replace hold hswapped
  ended := hended

theorem TerminationStep.inv {s s' : TerminationRun} {a : TerminationAction}
    (hstep : TerminationStep s a s') (hs : s.Inv) : s'.Inv := by
  cases hstep with
  | call => exact hs.of_sink rfl _
  | @accept pre post res ms peer _ hsink =>
    have hterm : ms.terminated = s.sink.terminated := by
      have := s.sink.terminated_sinkLocked res
      rwa [hsink] at this
    have hcalls := hs.of_sink hterm (pre ++ post)
    refine ⟨fun h => ?_, fun h => ?_, hcalls.swapped, hcalls.ended⟩
    · exact List.forall_mem_cons.2 ⟨rfl, hcalls.exclusive h⟩
    · exact List.forall_mem_cons.2 ⟨fun _ => Phase.noConfusion, hcalls.notSending h⟩
  | @refuse pre post res ms _ hsink =>
    have := s.sink.terminated_sinkLocked res
    rw [hsink] at this
    exact hs.of_sink this _
  | addPeers _ hadd => exact hs.of_sink (Sink.terminated_addPeersLocked hadd) _
  | receive => exact ⟨hs.exclusive, hs.notSending, hs.swapped, hs.ended⟩
  | @download pre post ds d a ms hsplit hdown _ hlock =>
    have hterm : ms.terminated = s.sink.terminated := congrArg (fun x => x.2.2) hdown.settings
    refine hs.replace hsplit hterm (fun hholder => ?_) (fun hrun => ?_)
    · -- a goroutine cannot lock `drainMx` next to `Terminate`
      have hne : a ≠ .lock := by
        rintro rfl
        obtain ⟨p, hp, hholds⟩ := hholder
        rw [hlock rfl p hp] at hholds
        cases hholds
      have hd := hs.exclusive hholder (.download d) (by simp [hsplit])
      rintro _ hg
      obtain ⟨d', hd', rfl⟩ := List.mem_map.1 hg
      exact hdown.holdsDrainMx hne hd d' hd'
    · rintro _ hg
      obtain ⟨d', hd', rfl⟩ := List.mem_map.1 hg
      exact (hdown.of_terminated hrun d' hd').1
  | acquire hsplit _ =>
    refine hs.replace hsplit rfl (fun _ => ?_) (fun _ => ?_)
    · simp [Leech.view, Phase.holdsDrainMx]
    · simp [Leech.view]
  | begin hsplit =>
    refine hs.replace hsplit rfl (fun _ => ?_) (fun _ => ?_)
    · simp [Leech.view, Phase.holdsDrainMx]
    · simp [Leech.view]
  | terminate =>
    refine ⟨?_, hs.notSending, List.forall_mem_cons.2 ⟨.inr (.inl rfl), hs.swapped⟩, hs.ended⟩
    rintro ⟨p, hp, hholds⟩
    rcases List.mem_cons.1 hp with rfl | hp
    · cases hholds
    · exact hs.exclusive ⟨p, hp, hholds⟩
  | lockTerminate hsplit _ hfree =>
    refine ⟨fun _ => hfree, hs.notSending, ?_, hs.ended⟩
    have hold := hs.swapped
    rw [hsplit] at hold
    exact forall_mem_replace hold (by simp)
  | swap hsplit _ =>
    have hfree := hs.exclusive ⟨.locked, by simp [hsplit], rfl⟩
    refine ⟨fun _ => hfree, fun _ g hg result hphase => ?_, fun _ _ => .inl rfl, fun _ => rfl⟩
    have hheld := hfree g hg
    rw [hphase] at hheld
    cases hheld
  | close hsplit =>
    have hterm : s.sink.terminated = true := by simpa using hs.swapped .swapped (by simp [hsplit])
    exact hs.terminate hsplit (by simp [TerminatePhase.holdsDrainMx]) (by simp [hterm])
      fun _ => hterm
  | unlock hsplit hterm =>
    exact hs.terminate hsplit (by simp [TerminatePhase.holdsDrainMx]) (by simp [hterm])
      fun _ => hterm
  | @returnTerminate pre post hsplit =>
    have hterm : s.sink.terminated = true := by simpa using hs.swapped .unlocked (by simp [hsplit])
    have hrest : TerminationRun.Inv { s with
        terminates := pre ++ [] ++ post, drainClosed := s.drainClosed, returned := true } :=
      hs.terminate hsplit (by simp) (by simp) fun _ => hterm
    rwa [List.append_nil] at hrest

theorem terminationSystem_inv {maxNLeeches : Int} {maxConcurrentDownloads : Nat}
    {s : TerminationRun} (h : (terminationSystem maxNLeeches maxConcurrentDownloads).Reachable s) :
    s.Inv := by
  refine Transition.System.invariant ?_ (fun s a s' _ hs (hstep : TerminationStep s a s') =>
    hstep.inv hs) h
  rintro _ rfl
  constructor <;> simp [newSink]

/-! ## After the return of Terminate -/

/-- No goroutine is between its check and the start of `Client.Do` any more. -/
def TerminationRun.Idle (s : TerminationRun) : Prop :=
  s.returned = true → ∀ g ∈ s.goroutines, g.parked = false

theorem Leech.parked_download {d : Download} (h : d.phase ≠ .waiting) :
    (Leech.download d).parked = false := by
  obtain ⟨infoHash, peer, phase⟩ := d
  cases phase with
  | waiting => exact absurd rfl h
  | _ => rfl

theorem TerminationStep.idle {s s' : TerminationRun} {a : TerminationAction}
    (hstep : TerminationStep s a s') (hok : ReturnsIdle s a) (hinv : s.Inv) (hs : s.Idle) :
    s'.Idle := by
  intro hreturned
  cases hstep with
  | call | refuse | addPeers | receive | terminate | lockTerminate | swap | close | unlock =>
    exact hs hreturned
  | accept => exact List.forall_mem_cons.2 ⟨rfl, hs hreturned⟩
  | download hsplit hdown _ _ =>
    have hold := hs hreturned
    rw [hsplit] at hold
    refine forall_mem_replace hold ?_
    rintro _ hg
    obtain ⟨d', hd', rfl⟩ := List.mem_map.1 hg
    exact Leech.parked_download (hdown.of_terminated (hinv.ended (.inr hreturned)) d' hd').2
  | acquire hsplit _ =>
    have hparked := hs hreturned _ (hsplit ▸ List.mem_append_cons_self)
    cases hparked
  | begin hsplit =>
    have hold := hs hreturned
    rw [hsplit] at hold
    exact forall_mem_replace hold (by simp [Leech.parked])
  | returnTerminate => exact hok rfl

theorem idle_of_restrict {maxNLeeches : Int} {maxConcurrentDownloads : Nat} {s : TerminationRun}
    (h : ((terminationSystem maxNLeeches maxConcurrentDownloads).restrict ReturnsIdle).Reachable s) :
    s.Idle := by
  refine Transition.System.invariant ?_ (fun s a s' hreach hs hstep => ?_) h
  · rintro _ rfl hreturned
    cases hreturned
  · exact TerminationStep.idle hstep.1 hstep.2 (terminationSystem_inv hreach.of_restrict) hs

/-- Nothing is ever sent on the closed channel. -/
theorem send_before_close {maxNLeeches : Int} {maxConcurrentDownloads : Nat} {s s' : TerminationRun}
    (hs : (terminationSystem maxNLeeches maxConcurrentDownloads).Reachable s) {h : Bytes}
    {result : Metadata} (hstep : TerminationStep s (.download h (.send result)) s') :
    s.drainClosed = false := by
  have hinv := terminationSystem_inv hs
  cases hstep with
  | download hsplit hdown _ _ =>
    rw [← Bool.not_eq_true]
    intro hclosed
    cases hdown with
    | send =>
      exact hinv.notSending (hinv.ended (.inl hclosed)) _
        (hsplit ▸ List.mem_append_cons_self) result rfl

/-- In every run in which `Terminate` returns only while no goroutine is between its check and
    the start of its download, no download starts after the return and nothing is sent on the
    closed channel. -/
theorem terminate_stops_downloads {maxNLeeches : Int} {maxConcurrentDownloads : Nat}
    {s s' : TerminationRun} {a : TerminationAction}
    (hs : ((terminationSystem maxNLeeches maxConcurrentDownloads).restrict ReturnsIdle).Reachable s)
    (hstep : TerminationStep s a s') : StaysStopped s a := by
  refine ⟨?_, ?_⟩
  · rintro h peer rfl
    rw [← Bool.not_eq_true]
    intro hreturned
    cases hstep with
    | begin hsplit =>
      have hparked := idle_of_restrict hs hreturned _ (hsplit ▸ List.mem_append_cons_self)
      cases hparked
  · rintro h result rfl
    exact send_before_close hs.of_restrict hstep

/-! ## Runs of one download -/

def onePeer : AddrPort := ⟨.v4 (Vector.replicate 4 9), 80⟩

/-- The sink that has accepted an info hash with one peer, with one goroutine in some state. -/
def oneDownload (g : Leech) : TerminationRun :=
  ⟨((newSink 1 1).sinkLocked ⟨[7], [onePeer], 4⟩).1, [g], [], [], false, false⟩

/-- The state after a call of `Terminate`. -/
def TerminationRun.afterTerminate (s : TerminationRun) : TerminationRun :=
  { s with sink := s.sink.terminate, drainClosed := true, returned := true }

section Runs

variable {ok : TerminationRun → TerminationAction → Prop} {maxNLeeches : Int}
  {maxConcurrentDownloads : Nat} {s s' : TerminationRun} {a : TerminationAction}

theorem reachable_step
    (hs : ((terminationSystem maxNLeeches maxConcurrentDownloads).restrict ok).Reachable s)
    (hstep : TerminationStep s a s') (hok : ok s a) :
    ((terminationSystem maxNLeeches maxConcurrentDownloads).restrict ok).Reachable s' :=
  hs.step ⟨hstep, hok⟩

theorem oneDownload_waiting (hok : ∀ s a, a ≠ .returnTerminate → ok s a) :
    ((terminationSystem 1 1).restrict ok).Reachable
      (oneDownload (.download ⟨[7], onePeer, .waiting⟩)) := by
  have haccept : TerminationStep
      ⟨newSink 1 1, [], [.sink ⟨[7], [onePeer], 4⟩], [], false, false⟩ _
      (oneDownload (.download ⟨[7], onePeer, .spawned⟩)) :=
    @TerminationStep.accept _ [] [] ⟨[7], [onePeer], 4⟩ _ onePeer rfl rfl
  have hstart : TerminationStep (oneDownload (.download ⟨[7], onePeer, .spawned⟩)) _
      (oneDownload (.download ⟨[7], onePeer, .waiting⟩)) :=
    @TerminationStep.download _ [] [] _ _ _ _ rfl (.start rfl) nofun nofun
  have hnew : ((terminationSystem 1 1).restrict ok).Reachable
      ⟨newSink 1 1, [], [], [], false, false⟩ := .init rfl
  have hcalled := reachable_step hnew (.call (c := .sink ⟨[7], [onePeer], 4⟩) rfl) (hok _ _ nofun)
  exact reachable_step (reachable_step hcalled haccept (hok _ _ nofun)) hstart (hok _ _ nofun)

/-- `Terminate` runs to its end when no goroutine holds `drainMx`. -/
theorem reachable_afterTerminate (hok : ∀ s a, a ≠ .returnTerminate → ok s a)
    (hs : ((terminationSystem maxNLeeches maxConcurrentDownloads).restrict ok).Reachable s)
    (hidle : s.terminates = []) (hrun : s.sink.terminated = false)
    (hfree : ∀ g ∈ s.goroutines, g.view.phase.holdsDrainMx = false)
    (hreturn : ∀ t : TerminationRun, t.goroutines = s.goroutines → ok t .returnTerminate) :
    ((terminationSystem maxNLeeches maxConcurrentDownloads).restrict ok).Reachable
      s.afterTerminate := by
  obtain ⟨sink, goroutines, calls, terminates, drainClosed, returned⟩ := s
  obtain rfl : terminates = [] := hidle
  have hcalled := reachable_step hs .terminate (hok _ _ nofun)
  have hlocked := reachable_step hcalled
    (@TerminationStep.lockTerminate _ [] [] rfl (by simp [TerminatePhase.holdsDrainMx]) hfree)
    (hok _ _ nofun)
  have hswapped := reachable_step hlocked (@TerminationStep.swap _ [] [] rfl hrun) (hok _ _ nofun)
  have hclosed := reachable_step hswapped (@TerminationStep.close _ [] [] rfl) (hok _ _ nofun)
  exact reachable_step hclosed (@TerminationStep.returnTerminate _ [] [] rfl) (hreturn _ rfl)

end Runs

/-- A download that runs while `Terminate` returns, and fails afterwards. -/
theorem terminate_stops_downloads_running :
    ∃ s s', ((terminationSystem 1 1).restrict ReturnsIdle).Reachable s ∧ s.returned = true ∧
      TerminationStep s (.download [7] .onError) s' ∧
      StaysStopped s (.download [7] .onError) := by
  have hok : ∀ s a, a ≠ .returnTerminate → ReturnsIdle s a := fun _ _ hne heq => absurd heq hne
  have hstarting : ((terminationSystem 1 1).restrict ReturnsIdle).Reachable
      (oneDownload (.starting [7] onePeer)) :=
    reachable_step (oneDownload_waiting hok) (@TerminationStep.acquire _ [] [] _ _ rfl (by decide))
      (hok _ _ nofun)
  have hrunning : ((terminationSystem 1 1).restrict ReturnsIdle).Reachable
      (oneDownload (.download ⟨[7], onePeer, .running⟩)) :=
    reachable_step hstarting (@TerminationStep.begin _ [] [] _ _ rfl) (hok _ _ nofun)
  have hreturned := reachable_afterTerminate hok hrunning rfl rfl (by simp [oneDownload]; rfl)
    (fun t ht _ => by simp [ht, oneDownload, Leech.parked])
  have hstep : TerminationStep (oneDownload (.download ⟨[7], onePeer, .running⟩)).afterTerminate
      (.download [7] .onError) _ :=
    @TerminationStep.download _ [] [] _ _ _ _ rfl .onError nofun nofun
  exact ⟨_, _, hreturned, rfl, hstep, terminate_stops_downloads hreturned hstep⟩

/-- A goroutine waits for its place in `downloadSem` while `Terminate` runs from start to end;
    it gets the place afterwards, and its download begins. -/
theorem download_starts_late :
    ¬ ∀ s a s', (terminationSystem 1 1).Reachable s → TerminationStep s a s' →
      StaysStopped s a := by
  intro hall
  have hwaiting : ((terminationSystem 1 1).restrict fun _ _ => True).Reachable _ :=
    oneDownload_waiting fun _ _ _ => trivial
  have hreturned := reachable_afterTerminate (fun _ _ _ => trivial) hwaiting rfl rfl
    (by simp [oneDownload]; rfl) fun _ _ => trivial
  have hstarting := reachable_step hreturned
    (@TerminationStep.acquire _ [] [] _ _ rfl (by decide)) trivial
  have hlate := hall _ _ _ hstarting.of_restrict (@TerminationStep.begin _ [] [] _ _ rfl)
  exact absurd (hlate.1 _ _ rfl) (by decide)

end DhtClient
