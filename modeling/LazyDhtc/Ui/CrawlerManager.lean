-- SUMMARY: The control of the crawler: manual starts and stops, the schedule and the auto-stop timers, as functions of the manager and as a system of calls.
import LazyDhtc.Lib.Transition
import LazyDhtc.Ui.Schedule

/-!
# Crawler manager

The manager starts a run of the crawler with a stop channel of its own and stops it by
closing the channel. `Start` and `Stop` override the schedule until its next boundary, the
schedule is reconciled every now and then, and the timer of a run may stop it. Each of these
holds the mutex from its beginning to its end.
-/

namespace Ui

open DhtClient Periodic Transition

/-! ## The manager -/

/-- What the manager reads of the configuration. -/
structure CrawlerConfiguration where
  onlyWebServer : Bool
  crawlerThreads : Int64
  crawlerAutoStopMinutes : Int64
  crawlerScheduleEnabled : Bool
  crawlerScheduleStart : Bytes
  crawlerScheduleEnd : Bytes

structure CrawlerManager where
  configuration : CrawlerConfiguration
  /-- The stop channel, by its number. -/
  stop : Option Nat
  startedAt : Int
  autoStopAt : Int
  threads : Int64
  running : Bool
  manualOverride : Bool
  manualRun : Bool
  manualUntil : Int
  /-- The number of channels made. -/
  channels : Nat
  /-- The channels that `close` was called with, where `none` is a nil channel. -/
  closed : List (Option Nat)

/-- The goroutines of a run: `crawl` and, with a time, `stopAfter`. -/
structure Run where
  stop : Nat
  threads : Int64
  autoStopAt : Option Int

namespace CrawlerManager

variable (zone : Zone) (m : CrawlerManager)

/-- It starts a run unless there is one. -/
def startLocked (now : Int) : CrawlerManager × Option Run :=
  if m.running || m.configuration.onlyWebServer then (m, none)
  else
    let threads := if m.configuration.crawlerThreads < 1 then 1 else m.configuration.crawlerThreads
    let autoStop := m.configuration.crawlerAutoStopMinutes
    let autoStopAt := now + (autoStop * 60000000000).toInt
    ({ m with
        stop := some m.channels
        running := true
        startedAt := now
        threads := threads
        autoStopAt := if 0 < autoStop then autoStopAt else 0
        channels := m.channels + 1 },
      some ⟨m.channels, threads, if 0 < autoStop then some autoStopAt else none⟩)

def stopLocked : CrawlerManager × Bool :=
  if m.running = false then (m, false)
  else ({ m with
      closed := m.closed ++ [m.stop]
      running := false
      stop := none
      autoStopAt := 0 }, true)

def setManualOverrideAtLocked (now : Int) (run : Bool) : CrawlerManager :=
  if m.configuration.crawlerScheduleEnabled = false then m
  else
    let next := (scheduleState zone now m.configuration.crawlerScheduleStart
      m.configuration.crawlerScheduleEnd).2
    if next = 0 then m
    else { m with manualOverride := true, manualRun := run, manualUntil := next }

/-- `Start`, with the times that it and `startLocked` read. -/
def manualStart (now later : Int) : CrawlerManager × Option Run :=
  (m.setManualOverrideAtLocked zone now true).startLocked later

/-- `Stop` -/
def manualStop (now : Int) : CrawlerManager × Bool :=
  (m.setManualOverrideAtLocked zone now false).stopLocked

def reconcileSchedule (now later : Int) : CrawlerManager × Option Run :=
  if m.configuration.onlyWebServer || !m.configuration.crawlerScheduleEnabled then
    ({ m with manualOverride := false, manualUntil := 0 }, none)
  else if m.manualOverride ∧ now < m.manualUntil then
    if m.manualRun then m.startLocked later else (m.stopLocked.1, none)
  else
    let m := { m with manualOverride := false, manualUntil := 0 }
    if (scheduleState zone now m.configuration.crawlerScheduleStart
        m.configuration.crawlerScheduleEnd).1 then m.startLocked later
    else (m.stopLocked.1, none)

/-- What `stopAfter` does when the timer of a run fires. -/
def stopAfter (stop : Nat) : CrawlerManager :=
  if m.stop = some stop then { m with manualRun := false }.stopLocked.1 else m

end CrawlerManager

def newCrawlerManager (cfg : CrawlerConfiguration) : CrawlerManager where
  configuration := cfg
  stop := none
  startedAt := 0
  autoStopAt := 0
  threads := 0
  running := false
  manualOverride := false
  manualRun := false
  manualUntil := 0
  channels := 0
  closed := []

/-! ## The system -/

/-- The timer of a run. -/
structure Timer where
  stop : Nat
  deadline : Int

structure Control where
  manager : CrawlerManager
  clock : Int
  timers : List Timer

def Run.timers (run : Option Run) : List Timer :=
  (run.bind fun r => r.autoStopAt.map fun deadline => ⟨r.stop, deadline⟩).toList

inductive ControlAction where
  | start (now : Int)
  | stop (now : Int)
  | reconcile (now : Int)
  | autoStop (stop : Nat) (now : Int)
  | leave

/-- The calls at times that never decrease. -/
inductive ControlStep (zone : Zone) : Control → ControlAction → Control → Prop where
  | start {s : Control} {now later : Int} : s.clock ≤ now → now ≤ later →
      ControlStep zone s (.start now) {
        manager := (s.manager.manualStart zone now later).1
        clock := later
        timers := s.timers ++ Run.timers (s.manager.manualStart zone now later).2 }
  | stop {s : Control} {now : Int} : s.clock ≤ now →
      ControlStep zone s (.stop now)
        { s with manager := (s.manager.manualStop zone now).1, clock := now }
  | reconcile {s : Control} {now later : Int} : s.clock ≤ now → now ≤ later →
      ControlStep zone s (.reconcile now) {
        manager := (s.manager.reconcileSchedule zone now later).1
        clock := later
        timers := s.timers ++ Run.timers (s.manager.reconcileSchedule zone now later).2 }
  | autoStop {s : Control} {pre post : List Timer} {t : Timer} {now : Int} :
      s.timers = pre ++ t :: post → s.clock ≤ now → t.deadline ≤ now →
      ControlStep zone s (.autoStop t.stop now)
        { manager := s.manager.stopAfter t.stop, clock := now, timers := pre ++ post }
  /-- The goroutine of a timer finds its stop channel closed. -/
  | leave {s : Control} {pre post : List Timer} {t : Timer} :
      s.timers = pre ++ t :: post → some t.stop ∈ s.manager.closed →
      ControlStep zone s .leave { s with timers := pre ++ post }

/-- A new manager, at a time that is not before the zero time. -/
def controlSystem (zone : Zone) (cfg : CrawlerConfiguration) : System Control ControlAction where
  init s := s.manager = newCrawlerManager cfg ∧ 0 ≤ s.clock ∧ s.timers = []
  step := ControlStep zone

/-! ## What the calls do -/

namespace CrawlerManager

variable {zone : Zone} {m : CrawlerManager}

theorem startLocked_cases (m : CrawlerManager) (now : Int) :
    ((m.running = true ∨ m.configuration.onlyWebServer = true) ∧ m.startLocked now = (m, none)) ∨
      (m.running = false ∧ m.configuration.onlyWebServer = false ∧
        ∃ startedAt autoStopAt threads deadline, m.startLocked now =
          ({ m with
              stop := some m.channels
              running := true
              startedAt := startedAt
              threads := threads
              autoStopAt := autoStopAt
              channels := m.channels + 1 }, some ⟨m.channels, threads, deadline⟩) ∧
          (m.configuration.crawlerAutoStopMinutes ≤ 0 → deadline = none)) := by
  unfold startLocked
  split
  · next hguard => exact .inl ⟨by simpa using hguard, rfl⟩
  · next hguard =>
    have hfree : m.running = false ∧ m.configuration.onlyWebServer = false := by
      simpa using hguard
    refine .inr ⟨hfree.1, hfree.2, _, _, _, _, rfl, ?_⟩
    intro hdisabled
    exact if_neg (Int64.not_lt.2 hdisabled)

theorem stopLocked_cases (m : CrawlerManager) :
    (m.running = false ∧ m.stopLocked = (m, false)) ∨
      (m.running = true ∧ m.stopLocked = ({ m with
        closed := m.closed ++ [m.stop]
        running := false
        stop := none
        autoStopAt := 0 }, true)) := by
  unfold stopLocked
  split
  · next h => exact .inl ⟨h, rfl⟩
  · next h => exact .inr ⟨by simpa using h, rfl⟩

theorem setManualOverrideAtLocked_cases (zone : Zone) (m : CrawlerManager) (now : Int)
    (run : Bool) : ∃ o r u, m.setManualOverrideAtLocked zone now run =
      { m with manualOverride := o, manualRun := r, manualUntil := u } := by
  unfold setManualOverrideAtLocked
  split
  · exact ⟨_, _, _, rfl⟩
  · dsimp only
    split
    · exact ⟨_, _, _, rfl⟩
    · exact ⟨_, _, _, rfl⟩

/-- The manager is consistent: it runs the crawler while it has a stop channel, that of the
    latest run, and the channels of all earlier runs are closed, each once. -/
structure Wellformed (cfg : CrawlerConfiguration) (m : CrawlerManager) : Prop where
  configuration : m.configuration = cfg
  running : m.running = m.stop.isSome
  server : m.running = true → cfg.onlyWebServer = false
  latest : ∀ c, m.stop = some c → c + 1 = m.channels
  closed : ∀ x ∈ m.closed, ∃ c, x = some c ∧ c < m.channels ∧ m.stop ≠ some c
  nodup : m.closed.Nodup

variable {cfg : CrawlerConfiguration}

theorem Wellformed.override (h : Wellformed cfg m) (o r : Bool) (u : Int) :
    Wellformed cfg { m with manualOverride := o, manualRun := r, manualUntil := u } :=
  ⟨h.configuration, h.running, h.server, h.latest, h.closed, h.nodup⟩

theorem Wellformed.setManualOverrideAtLocked (h : Wellformed cfg m) (zone : Zone) (now : Int)
    (run : Bool) : Wellformed cfg (m.setManualOverrideAtLocked zone now run) := by
  obtain ⟨o, r, u, heq⟩ := m.setManualOverrideAtLocked_cases zone now run
  rw [heq]
  exact h.override o r u

theorem Wellformed.startLocked (h : Wellformed cfg m) (now : Int) :
    Wellformed cfg (m.startLocked now).1 := by
  obtain ⟨-, heq⟩ | ⟨hstopped, hserver, _, _, _, _, heq, -⟩ := m.startLocked_cases now
  · rw [heq]
    exact h
  · rw [heq]
    refine ⟨h.configuration, rfl, fun _ => h.configuration ▸ hserver, ?_, ?_, h.nodup⟩
    · intro c hc
      cases hc
      rfl
    · intro x hx
      obtain ⟨c, rfl, hlt, -⟩ := h.closed x hx
      refine ⟨c, rfl, Nat.lt_succ_of_lt hlt, ?_⟩
      intro hc
      cases hc
      exact Nat.lt_irrefl _ hlt

theorem Wellformed.stopLocked (h : Wellformed cfg m) : Wellformed cfg m.stopLocked.1 := by
  obtain ⟨-, heq⟩ | ⟨hrunning, heq⟩ := m.stopLocked_cases
  · rw [heq]
    exact h
  · obtain ⟨c, hc⟩ := Option.isSome_iff_exists.1 (h.running ▸ hrunning)
    rw [heq]
    refine ⟨h.configuration, rfl, nofun, nofun, ?_, ?_⟩
    · intro x hx
      obtain hx | hx := List.mem_append.1 hx
      · obtain ⟨c', rfl, hlt, -⟩ := h.closed x hx
        exact ⟨c', rfl, hlt, fun hbad => by cases hbad⟩
      · refine ⟨c, (List.mem_singleton.1 hx).trans hc, ?_, fun hbad => by cases hbad⟩
        exact Nat.lt_of_succ_le (h.latest c hc).le
    · refine h.nodup.append (List.nodup_singleton _) ?_
      intro x hx hx'
      obtain ⟨c', rfl, -, hne⟩ := h.closed x hx
      exact hne (List.mem_singleton.1 hx').symm

theorem Wellformed.reconcileSchedule (h : Wellformed cfg m) (zone : Zone) (now later : Int) :
    Wellformed cfg (m.reconcileSchedule zone now later).1 := by
  unfold CrawlerManager.reconcileSchedule
  split
  · exact h.override _ _ _
  split
  · split
    · exact h.startLocked later
    · exact h.stopLocked
  · dsimp only
    split
    · exact (h.override _ _ _).startLocked later
    · exact (h.override _ _ _).stopLocked

theorem Wellformed.stopAfter (h : Wellformed cfg m) (stop : Nat) :
    Wellformed cfg (m.stopAfter stop) := by
  unfold CrawlerManager.stopAfter
  split
  · exact (h.override m.manualOverride false m.manualUntil).stopLocked
  · exact h

theorem Wellformed.new (cfg : CrawlerConfiguration) : Wellformed cfg (newCrawlerManager cfg) :=
  ⟨rfl, rfl, nofun, nofun, nofun, List.nodup_nil⟩

/-! ## Reconciling -/

/-- The override is in force. -/
def Overridden (m : CrawlerManager) (now : Int) : Prop :=
  m.manualOverride = true ∧ now < m.manualUntil

instance (m : CrawlerManager) (now : Int) : Decidable (m.Overridden now) :=
  inferInstanceAs (Decidable (_ ∧ _))

/-- Whether a reconciliation wants the crawler to run. -/
def wanted (zone : Zone) (m : CrawlerManager) (now : Int) : Bool :=
  if m.Overridden now then m.manualRun
  else (scheduleState zone now m.configuration.crawlerScheduleStart
    m.configuration.crawlerScheduleEnd).1

/-- An override that is not in force ends. -/
def expire (m : CrawlerManager) (now : Int) : CrawlerManager :=
  if m.Overridden now then m else { m with manualOverride := false, manualUntil := 0 }

def follow (m : CrawlerManager) (run : Bool) (later : Int) : CrawlerManager × Option Run :=
  if run then m.startLocked later else (m.stopLocked.1, none)

theorem reconcileSchedule_eq (zone : Zone) {m : CrawlerManager}
    (hserver : m.configuration.onlyWebServer = false)
    (henabled : m.configuration.crawlerScheduleEnabled = true) (now later : Int) :
    m.reconcileSchedule zone now later = (m.expire now).follow (m.wanted zone now) later := by
  have hguard : (m.configuration.onlyWebServer || !m.configuration.crawlerScheduleEnabled) =
      false := by
    rw [hserver, henabled]
    rfl
  unfold reconcileSchedule expire wanted
  by_cases h : m.Overridden now
  · have hforce : m.manualOverride = true ∧ now < m.manualUntil := h
    simp only [hguard, if_pos hforce, if_pos h, follow, Bool.false_eq_true, if_false]
  · have hforce : ¬ (m.manualOverride = true ∧ now < m.manualUntil) := h
    simp only [hguard, if_neg hforce, if_neg h, follow, Bool.false_eq_true, if_false]

@[simp] theorem expire_configuration (m : CrawlerManager) (now : Int) :
    (m.expire now).configuration = m.configuration := by
  unfold expire
  split
  · rfl
  · rfl

theorem startLocked_running (m : CrawlerManager) (hserver : m.configuration.onlyWebServer = false)
    (now : Int) : (m.startLocked now).1.running = true := by
  obtain ⟨hrunning | hbad, heq⟩ | ⟨-, -, _, _, _, _, heq, -⟩ := m.startLocked_cases now
  · rw [heq]
    exact hrunning
  · rw [hserver] at hbad
    cases hbad
  · rw [heq]

theorem stopLocked_running (m : CrawlerManager) : m.stopLocked.1.running = false := by
  obtain ⟨hstopped, heq⟩ | ⟨-, heq⟩ := m.stopLocked_cases
  · rw [heq]
    exact hstopped
  · rw [heq]

theorem follow_running (m : CrawlerManager) (hserver : m.configuration.onlyWebServer = false)
    (run : Bool) (later : Int) : (m.follow run later).1.running = run := by
  cases run with
  | true => exact m.startLocked_running hserver later
  | false => exact m.stopLocked_running

/-- After a reconciliation the crawler runs if and only if that was wanted. -/
theorem reconcileSchedule_running (zone : Zone) {m : CrawlerManager}
    (hserver : m.configuration.onlyWebServer = false)
    (henabled : m.configuration.crawlerScheduleEnabled = true) (now later : Int) :
    (m.reconcileSchedule zone now later).1.running = m.wanted zone now := by
  rw [reconcileSchedule_eq zone hserver henabled]
  refine follow_running _ ?_ _ later
  rw [expire_configuration]
  exact hserver

/-- The two managers have the same configuration and override. -/
structure SameOverride (m m' : CrawlerManager) : Prop where
  configuration : m'.configuration = m.configuration
  override : m'.manualOverride = m.manualOverride
  run : m'.manualRun = m.manualRun
  until_eq : m'.manualUntil = m.manualUntil

theorem SameOverride.wanted {m m' : CrawlerManager} (h : SameOverride m m') (zone : Zone)
    (now : Int) : m'.wanted zone now = m.wanted zone now := by
  have hforce : m'.Overridden now ↔ m.Overridden now := by
    unfold Overridden
    rw [h.override, h.until_eq]
  unfold CrawlerManager.wanted
  rw [h.configuration, h.run]
  exact if_congr hforce rfl rfl

theorem startLocked_override (m : CrawlerManager) (now : Int) :
    SameOverride m (m.startLocked now).1 := by
  obtain ⟨-, heq⟩ | ⟨-, -, _, _, _, _, heq, -⟩ := m.startLocked_cases now
  · rw [heq]
    exact ⟨rfl, rfl, rfl, rfl⟩
  · rw [heq]
    exact ⟨rfl, rfl, rfl, rfl⟩

theorem stopLocked_override (m : CrawlerManager) : SameOverride m m.stopLocked.1 := by
  obtain ⟨-, heq⟩ | ⟨-, heq⟩ := m.stopLocked_cases
  · rw [heq]
    exact ⟨rfl, rfl, rfl, rfl⟩
  · rw [heq]
    exact ⟨rfl, rfl, rfl, rfl⟩

theorem follow_override (m : CrawlerManager) (run : Bool) (later : Int) :
    SameOverride m (m.follow run later).1 := by
  cases run with
  | true => exact m.startLocked_override later
  | false => exact m.stopLocked_override

/-- A reconciliation does not make an override. -/
theorem reconcileSchedule_override (zone : Zone) (m : CrawlerManager) (now later : Int)
    (h : (m.reconcileSchedule zone now later).1.manualOverride = true) :
    SameOverride m (m.reconcileSchedule zone now later).1 := by
  by_cases hguard : m.configuration.onlyWebServer || !m.configuration.crawlerScheduleEnabled
  · unfold reconcileSchedule at h
    rw [if_pos hguard] at h
    cases h
  · have henabled : m.configuration.onlyWebServer = false ∧
        m.configuration.crawlerScheduleEnabled = true := by simpa using hguard
    rw [reconcileSchedule_eq zone henabled.1 henabled.2] at h ⊢
    have hsame := (m.expire now).follow_override (m.wanted zone now) later
    rw [hsame.override] at h
    unfold expire at h hsame ⊢
    split at h
    · next hforce =>
      rw [if_pos hforce] at hsame ⊢
      exact hsame
    · cases h

theorem stopAfter_override (m : CrawlerManager) (stop : Nat) :
    (m.stopAfter stop).manualOverride = m.manualOverride ∧
      (m.stopAfter stop).manualUntil = m.manualUntil := by
  unfold stopAfter
  split
  · have hsame := stopLocked_override { m with manualRun := false }
    exact ⟨hsame.override, hsame.until_eq⟩
  · exact ⟨rfl, rfl⟩

end CrawlerManager

/-! ## Runs -/

theorem ControlStep.wellformed {zone : Zone} {cfg : CrawlerConfiguration} {s s' : Control}
    {a : ControlAction} (hstep : ControlStep zone s a s') (h : s.manager.Wellformed cfg) :
    s'.manager.Wellformed cfg := by
  cases hstep with
  | start => exact (h.setManualOverrideAtLocked zone _ true).startLocked _
  | stop => exact (h.setManualOverrideAtLocked zone _ false).stopLocked
  | reconcile => exact h.reconcileSchedule zone _ _
  | autoStop => exact h.stopAfter _
  | leave => exact h

theorem ControlStep.clock_le {zone : Zone} {s s' : Control} {a : ControlAction}
    (hstep : ControlStep zone s a s') : s.clock ≤ s'.clock := by
  cases hstep with
  | start hnow hlater | reconcile hnow hlater => exact hnow.trans hlater
  | stop hnow | autoStop _ hnow => exact hnow
  | leave => exact le_rfl

theorem controlSystem_wellformed {zone : Zone} {cfg : CrawlerConfiguration} {s : Control}
    (h : (controlSystem zone cfg).Reachable s) : s.manager.Wellformed cfg ∧ 0 ≤ s.clock := by
  refine System.invariant (P := fun s : Control => s.manager.Wellformed cfg ∧ 0 ≤ s.clock) ?_ ?_ h
  · intro s ⟨hmanager, hclock, _⟩
    rw [hmanager]
    exact ⟨.new cfg, hclock⟩
  · intro s a s' _ hs hstep
    exact ⟨ControlStep.wellformed hstep hs.1, hs.2.trans (ControlStep.clock_le hstep)⟩

end Ui
