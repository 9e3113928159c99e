-- SUMMARY: The crawl goroutines of a process next to its control: when two sessions can be alive at the same time.
import LazyDhtc.Ui.Crawl
import LazyDhtc.Ui.CrawlerManager

/-!
# Sessions

Each run of the crawler is a goroutine that makes a DHT manager, publishes it, crawls until
its stop channel is closed, terminates its sink and its manager, and at last adds the
manager's counters to the totals. The control only closes the channel and does not wait for
the goroutine.
-/

namespace Ui

open DhtClient Cache Transition

/-! ## The process -/

/-- The counters of a DHT manager. -/
structure Counters where
  outputDropped : UInt64
  getPeersRejected : UInt64
  getPeersDeduped : UInt64
  getPeersSendDropped : UInt64

def Counters.add (c d : Counters) : Counters where
  outputDropped := c.outputDropped + d.outputDropped
  getPeersRejected := c.getPeersRejected + d.getPeersRejected
  getPeersDeduped := c.getPeersDeduped + d.getPeersDeduped
  getPeersSendDropped := c.getPeersSendDropped + d.getPeersSendDropped

/-- Where a crawl goroutine is. -/
inductive SessionPC where
  | spawned
  /-- in `NewManager`, which binds the listen addresses -/
  | binding
  /-- about to publish its manager -/
  | bound
  | crawling (c : CrawlState)
  | ended

structure Session where
  /-- The stop channel, which also names the manager. -/
  stop : Nat
  pc : SessionPC
  counters : Counters

/-- `Manager.Terminate` has completed. -/
def SessionPC.completed : SessionPC → Bool
  | .crawling c =>
    match c.pc with
    | .ended => true
    | _ => false
  | .ended => true
  | _ => false

/-- Between the beginning of `NewManager` and the completion of `Manager.Terminate`. -/
def SessionPC.alive : SessionPC → Bool
  | .spawned => false
  | pc => !pc.completed

structure Process where
  control : Control
  cache : InfoHashCache
  sessions : List Session
  activeDHTManager : Option Nat
  totals : Counters

inductive ProcessAction where
  | control (a : ControlAction)
  | enter
  | bind
  | publish
  | crawl (a : CrawlAction)
  | count
  | fold

def zeroCounters : Counters := ⟨0, 0, 0, 0⟩

/-- The goroutine of a run that a call has started: the run has made a channel. -/
def spawned (m m' : CrawlerManager) : List Session :=
  if m.channels < m'.channels then [⟨m.channels, .spawned, zeroCounters⟩] else []

/-- What a crawl sees of the process: the shared cache, and its stop channel. -/
def CrawlState.within (s : Process) (stop : Nat) (c : CrawlState) : CrawlState :=
  { c with cache := s.cache, stop := some stop ∈ s.control.manager.closed }

inductive ProcessStep (zone : Zone) (cfg : CrawlConfig) :
    Process → ProcessAction → Process → Prop where
  | control {s : Process} {a : ControlAction} {control : Control} :
      ControlStep zone s.control a control →
      ProcessStep zone cfg s (.control a) { s with
        control := control
        sessions := s.sessions ++ spawned s.control.manager control.manager }
  | enter {s : Process} {pre post : List Session} {stop : Nat} {n : Counters} :
      s.sessions = pre ++ ⟨stop, .spawned, n⟩ :: post →
      ProcessStep zone cfg s .enter { s with sessions := pre ++ ⟨stop, .binding, n⟩ :: post }
  | bind {s : Process} {pre post : List Session} {stop : Nat} {n : Counters} :
      s.sessions = pre ++ ⟨stop, .binding, n⟩ :: post →
      ProcessStep zone cfg s .bind { s with sessions := pre ++ ⟨stop, .bound, n⟩ :: post }
  | publish {s : Process} {pre post : List Session} {stop : Nat} {n : Counters} :
      s.sessions = pre ++ ⟨stop, .bound, n⟩ :: post →
      ProcessStep zone cfg s .publish { s with
        sessions := pre ++ ⟨stop, .crawling (newCrawl cfg s.cache), n⟩ :: post
        activeDHTManager := some stop }
  | crawl {s : Process} {pre post : List Session} {stop : Nat} {n : Counters}
      {c c' : CrawlState} {a : CrawlAction} :
      s.sessions = pre ++ ⟨stop, .crawling c, n⟩ :: post → a ≠ .requestStop →
      CrawlStep cfg.hasDatabase (c.within s stop) a c' →
      ProcessStep zone cfg s (.crawl a) { s with
        cache := c'.cache
        sessions := pre ++ ⟨stop, .crawling c', n⟩ :: post }
  /-- The goroutines of the manager count. -/
  | count {s : Process} {pre post : List Session} {stop : Nat} {pc : SessionPC}
      {n more : Counters} : s.sessions = pre ++ ⟨stop, pc, n⟩ :: post → pc.alive = true →
      ProcessStep zone cfg s .count
        { s with sessions := pre ++ ⟨stop, pc, n.add more⟩ :: post }
  | fold {s : Process} {pre post : List Session} {stop : Nat} {n : Counters} {c : CrawlState} :
      s.sessions = pre ++ ⟨stop, .crawling c, n⟩ :: post → c.pc = .ended →
      ProcessStep zone cfg s .fold { s with
        sessions := pre ++ ⟨stop, .ended, n⟩ :: post
        activeDHTManager := if s.activeDHTManager = some stop then none else s.activeDHTManager
        totals := if s.activeDHTManager = some stop then s.totals.add n else s.totals }

def processSystem (zone : Zone) (cfg : CrawlConfig) (crawler : CrawlerConfiguration) :
    System Process ProcessAction where
  init s := (controlSystem zone crawler).init s.control ∧ s.sessions = [] ∧
    s.activeDHTManager = none ∧ s.totals = zeroCounters
  step := ProcessStep zone cfg

/-- The number of sessions that are alive. -/
def aliveSessions (s : Process) : Nat := s.sessions.countP fun e => e.pc.alive

/-! ## Starting a run -/

/-- The call starts a run: `Start`, or a reconciliation that wants one, while the crawler
    does not run. -/
def CrawlerManager.starts (zone : Zone) (m : CrawlerManager) : ControlAction → Bool
  | .start _ => !m.running && !m.configuration.onlyWebServer
  | .reconcile now => !m.running && !m.configuration.onlyWebServer &&
    m.configuration.crawlerScheduleEnabled && m.wanted zone now
  | _ => false

/-- A run is only started when the managers of all earlier sessions are terminated. -/
def StartsAlone (zone : Zone) (s : Process) : ProcessAction → Prop
  | .control a => s.control.manager.starts zone a = true → ∀ e ∈ s.sessions, e.pc.completed = true
  | _ => True

namespace CrawlerManager

theorem startLocked_channels (m : CrawlerManager) (now : Int) : (m.startLocked now).1.channels =
    if !m.running && !m.configuration.onlyWebServer then m.channels + 1 else m.channels := by
  obtain ⟨hbusy, heq⟩ | ⟨hstopped, hserver, _, _, _, _, heq, -⟩ := m.startLocked_cases now
  · have hguard : (!m.running && !m.configuration.onlyWebServer) = false := by
      obtain h | h := hbusy
      · rw [h]
        rfl
      · rw [h]
        exact Bool.and_false _
    rw [heq, hguard]
    rfl
  · rw [heq, hstopped, hserver]
    rfl

theorem stopLocked_channels (m : CrawlerManager) : m.stopLocked.1.channels = m.channels := by
  obtain ⟨-, heq⟩ | ⟨-, heq⟩ := m.stopLocked_cases
  · rw [heq]
  · rw [heq]

theorem reconcileSchedule_channels (zone : Zone) (m : CrawlerManager) (now later : Int) :
    (m.reconcileSchedule zone now later).1.channels =
      if m.starts zone (.reconcile now) then m.channels + 1 else m.channels := by
  have hstarts : m.starts zone (.reconcile now) = (!m.running && !m.configuration.onlyWebServer &&
      m.configuration.crawlerScheduleEnabled && m.wanted zone now) := rfl
  by_cases hguard : m.configuration.onlyWebServer || !m.configuration.crawlerScheduleEnabled
  · have hfree : m.starts zone (.reconcile now) = false := by
      rw [hstarts]
      obtain h | h := (Bool.or_eq_true _ _).mp hguard
      · simp [h]
      · have hdisabled : m.configuration.crawlerScheduleEnabled = false := by simpa using h
        simp [hdisabled]
    unfold reconcileSchedule
    rw [if_pos hguard, hfree]
    rfl
  · have henabled : m.configuration.onlyWebServer = false ∧
        m.configuration.crawlerScheduleEnabled = true := by simpa using hguard
    have hexpire : (m.expire now).running = m.running ∧ (m.expire now).channels = m.channels := by
      unfold expire
      split
      · exact ⟨rfl, rfl⟩
      · exact ⟨rfl, rfl⟩
    rw [henabled.2, Bool.and_true] at hstarts
    rw [reconcileSchedule_eq zone henabled.1 henabled.2]
    cases hwanted : m.wanted zone now with
    | true =>
      rw [hwanted, Bool.and_true] at hstarts
      refine (startLocked_channels _ later).trans ?_
      rw [hexpire.1, hexpire.2, expire_configuration, hstarts]
    | false =>
      rw [hwanted, Bool.and_false] at hstarts
      refine (stopLocked_channels _).trans ?_
      rw [hexpire.2, hstarts]
      rfl

end CrawlerManager

theorem ControlStep.channels_eq {zone : Zone} {s s' : Control} {a : ControlAction}
    (hstep : ControlStep zone s a s') : s'.manager.channels =
      if s.manager.starts zone a then s.manager.channels + 1 else s.manager.channels := by
  cases hstep with
  | @start now later =>
    obtain ⟨o, r, u, heq⟩ := s.manager.setManualOverrideAtLocked_cases zone now true
    dsimp only [CrawlerManager.manualStart]
    rw [heq]
    exact CrawlerManager.startLocked_channels _ later
  | @stop now =>
    obtain ⟨o, r, u, heq⟩ := s.manager.setManualOverrideAtLocked_cases zone now false
    dsimp only [CrawlerManager.manualStop]
    rw [heq]
    exact CrawlerManager.stopLocked_channels _
  | @reconcile now later => exact s.manager.reconcileSchedule_channels zone now later
  | @autoStop pre post timer now =>
    dsimp only [CrawlerManager.stopAfter]
    split
    · exact CrawlerManager.stopLocked_channels _
    · rfl
  | leave => rfl

/-- A call starts a goroutine if and only if it starts a run. -/
theorem ControlStep.spawned_eq {zone : Zone} {s s' : Control} {a : ControlAction}
    (hstep : ControlStep zone s a s') : spawned s.manager s'.manager =
      if s.manager.starts zone a then [⟨s.manager.channels, .spawned, zeroCounters⟩] else [] := by
  unfold spawned
  rw [hstep.channels_eq]
  split
  · exact if_pos (Nat.lt_succ_self _)
  · exact if_neg (Nat.lt_irrefl _)

/-! ## One session at a time -/

/-- The number of sessions whose manager is not terminated. -/
def unfinished (sessions : List Session) : Nat := sessions.countP fun e => !e.pc.completed

theorem aliveSessions_le (s : Process) : aliveSessions s ≤ unfinished s.sessions := by
  refine List.countP_mono_left ?_
  intro e _ halive
  unfold SessionPC.alive at halive
  split at halive
  · cases halive
  · exact halive

/-- A manager that is terminated stays so. -/
theorem CrawlStep.ended {db : Bool} {c c' : CrawlState} {a : CrawlAction}
    (hstep : CrawlStep db c a c') (h : c.pc = .ended) : c'.pc = .ended := by
  cases hstep with
  | requestStop | manager | download | expireAfter => exact h
  | takeStop hpc | takeNew hpc | takeKnown hpc | sinkAccepts hpc | sinkRefuses hpc | addPeers hpc
    | remove hpc | takeMetadata hpc | deliver hpc | terminateSink hpc | finish hpc =>
    cases h.symm.trans hpc

theorem unfinished_replace {pre post : List Session} {e e' : Session}
    (h : e.pc.completed = true → e'.pc.completed = true) :
    unfinished (pre ++ e' :: post) ≤ unfinished (pre ++ e :: post) := by
  unfold unfinished
  simp only [List.countP_append, List.countP_cons]
  refine Nat.add_le_add_left (Nat.add_le_add_left ?_ _) _
  cases hdone : e.pc.completed with
  | true => simp [h hdone]
  | false =>
    simp only [Bool.not_false, if_true]
    split <;> omega

theorem completed_crawling {c : CrawlState} :
    (SessionPC.crawling c).completed = true ↔ c.pc = .ended := by
  unfold SessionPC.completed
  cases hpc : c.pc <;> simp [hpc]

/-- Only a call that starts a run leaves one more manager to terminate. -/
theorem ProcessStep.unfinished_le {zone : Zone} {cfg : CrawlConfig} {s s' : Process}
    {a : ProcessAction} (hstep : ProcessStep zone cfg s a s') (hok : StartsAlone zone s a)
    (h : unfinished s.sessions ≤ 1) : unfinished s'.sessions ≤ 1 := by
  have hreplace : ∀ {pre post : List Session} {e e' : Session}, s.sessions = pre ++ e :: post →
      (e.pc.completed = true → e'.pc.completed = true) → unfinished (pre ++ e' :: post) ≤ 1 :=
    fun hsplit hdone => (unfinished_replace hdone).trans (hsplit ▸ h)
  cases hstep with
  | control hcontrol =>
    dsimp only
    rw [hcontrol.spawned_eq]
    split
    · next hstarts =>
      have hnone : unfinished s.sessions = 0 := by
        refine List.countP_eq_zero.2 ?_
        intro e he
        simp [hok hstarts e he]
      unfold unfinished at *
      rw [List.countP_append, hnone]
      rfl
    · rw [List.append_nil]
      exact h
  | enter hsplit | bind hsplit | publish hsplit => exact hreplace hsplit fun hbad => by cases hbad
  | crawl hsplit _ hcrawl =>
    refine hreplace hsplit ?_
    intro hdone
    exact completed_crawling.2 (hcrawl.ended (completed_crawling.1 hdone))
  | count hsplit => exact hreplace hsplit id
  | fold hsplit => exact hreplace hsplit fun _ => rfl

/-! ## Two sessions -/

section

variable {zone : Zone} {cfg : CrawlConfig} {crawler : CrawlerConfiguration}

/-- A session whose manager is not terminated is alive, or may be next. -/
theorem comes_alive {s : Process} {pre post : List Session} {e : Session}
    (hsplit : s.sessions = pre ++ e :: post) (h : e.pc.completed = false) :
    ∃ e' : Session, e'.pc.alive = true ∧
      (processSystem zone cfg crawler).Steps s { s with sessions := pre ++ e' :: post } := by
  obtain ⟨stop, pc, n⟩ := e
  cases pc with
  | spawned => exact ⟨⟨stop, .binding, n⟩, rfl, .single (ProcessStep.enter hsplit)⟩
  | binding => exact ⟨⟨stop, .binding, n⟩, rfl, hsplit ▸ .refl s⟩
  | bound => exact ⟨⟨stop, .bound, n⟩, rfl, hsplit ▸ .refl s⟩
  | crawling c =>
    refine ⟨⟨stop, .crawling c, n⟩, ?_, hsplit ▸ .refl s⟩
    change (!(SessionPC.crawling c).completed) = true
    rw [h]
    rfl
  | ended => cases h

/-- A run that is started while a manager is not terminated may overlap its session. -/
theorem start_overlaps {s s' : Process} {a : ProcessAction}
    (hstep : (processSystem zone cfg crawler).step s a s') (h : ¬ StartsAlone zone s a) :
    ∃ t, (processSystem zone cfg crawler).Steps s' t ∧ 2 ≤ aliveSessions t := by
  cases hstep with
  | @control a control hcontrol =>
    simp only [StartsAlone, not_forall, Bool.not_eq_true] at h
    obtain ⟨hstarts, e, he, hunfinished⟩ := h
    obtain ⟨pre, post, hsplit⟩ := List.append_of_mem he
    let t : Process := { s with
      control := control, sessions := s.sessions ++ spawned s.control.manager control.manager }
    have hspawned : t.sessions =
        pre ++ e :: (post ++ [⟨s.control.manager.channels, .spawned, zeroCounters⟩]) := by
      change s.sessions ++ spawned s.control.manager control.manager = _
      rw [hcontrol.spawned_eq, if_pos hstarts, hsplit, List.append_assoc, List.cons_append]
    obtain ⟨e', halive, hsteps⟩ : ∃ e' : Session, e'.pc.alive = true ∧
        (processSystem zone cfg crawler).Steps t { t with sessions := pre ++ e' ::
          (post ++ [⟨s.control.manager.channels, .spawned, zeroCounters⟩]) } :=
      comes_alive hspawned hunfinished
    have henter : (processSystem zone cfg crawler).step { t with sessions := pre ++ e' ::
          (post ++ [⟨s.control.manager.channels, .spawned, zeroCounters⟩]) } .enter _ :=
      @ProcessStep.enter zone cfg _ (pre ++ e' :: post) [] s.control.manager.channels
        zeroCounters (by simp)
    refine ⟨_, hsteps.tail henter, ?_⟩
    unfold aliveSessions
    simp only [List.countP_append, List.countP_cons, List.countP_nil, halive, if_true]
    change 2 ≤ _ + (_ + 1) + (0 + 1)
    omega
  | _ => exact absurd trivial h

/-- As long as every run is started after the managers of all earlier sessions have been
    terminated, at most one session is alive; and from every other start a second session
    can come alive. -/
theorem one_session :
    (∀ s, ((processSystem zone cfg crawler).restrict (StartsAlone zone)).Reachable s →
      aliveSessions s ≤ 1) ∧
    ∀ s a s', (processSystem zone cfg crawler).Reachable s →
      (processSystem zone cfg crawler).step s a s' → ¬ StartsAlone zone s a →
      ∃ t, (processSystem zone cfg crawler).Steps s' t ∧ 2 ≤ aliveSessions t := by
  refine ⟨?_, fun s a s' _ hstep h => start_overlaps hstep h⟩
  intro s h
  refine (aliveSessions_le s).trans (System.invariant
    (P := fun s : Process => unfinished s.sessions ≤ 1) ?_ ?_ h)
  · intro s ⟨_, hsessions, _⟩
    rw [hsessions]
    exact Nat.zero_le 1
  · exact fun s a s' _ hs hstep => ProcessStep.unfinished_le hstep.1 hstep.2 hs

end

/-! ## Stop and start -/

/-- A crawler without a schedule. -/
def plainCrawler : CrawlerConfiguration where
  onlyWebServer := false
  crawlerThreads := 4
  crawlerAutoStopMinutes := 0
  crawlerScheduleEnabled := false
  crawlerScheduleStart := []
  crawlerScheduleEnd := []

/-- The crawler is started, stopped and started again, and the second goroutine is in
    `NewManager` before the first has taken its stop. -/
theorem sessions_overlap : ∃ s, (processSystem 0 ⟨1, 1, 1, true⟩ plainCrawler).Reachable s ∧
    aliveSessions s = 2 := by
  let sys := processSystem 0 ⟨1, 1, 1, true⟩ plainCrawler
  have hinit : sys.Reachable
      ⟨⟨newCrawlerManager plainCrawler, 0, []⟩, emptyInfoHashCache, [], none, zeroCounters⟩ :=
    .init ⟨⟨rfl, le_rfl, rfl⟩, rfl, rfl, rfl⟩
  have hstarted := hinit.step (.control (@ControlStep.start 0 _ 0 0 le_rfl le_rfl))
  have hbinding := hstarted.step (@ProcessStep.enter _ _ _ [] [] 0 zeroCounters rfl)
  have hbound := hbinding.step (@ProcessStep.bind _ _ _ [] [] 0 zeroCounters rfl)
  have hcrawling := hbound.step (@ProcessStep.publish _ _ _ [] [] 0 zeroCounters rfl)
  have hstopped := hcrawling.step (.control (@ControlStep.stop 0 _ 0 le_rfl))
  have hrestarted := hstopped.step (.control (@ControlStep.start 0 _ 0 0 le_rfl le_rfl))
  exact ⟨_, hrestarted.step (@ProcessStep.enter _ _ _ [_] [] 1 zeroCounters rfl), rfl⟩

end Ui
