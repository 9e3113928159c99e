-- SUMMARY: Manual starts and stops against the schedule: they last until its next boundary, and from then on the schedule decides.
import LazyDhtc.Ui.CrawlerManager

/-!
# Manual override

Under an enabled schedule with a valid window, every reconciliation follows an override that
is in force, or else the window. An override made at `t` is in force until the first boundary
after `t`.
-/

namespace Ui

open DhtClient Periodic Transition CrawlerManager

/-- `Start` or `Stop`, and when. -/
def ControlAction.manual : ControlAction → Option (Bool × Int)
  | .start now => some (true, now)
  | .stop now => some (false, now)
  | _ => none

/-- No manual action. -/
def NotManual (_ : Control) (a : ControlAction) : Prop := a.manual = none

/-- No manual action, and all reconciliations are before the boundary. -/
def ReconciledBefore (boundary : Int) (_ : Control) : ControlAction → Prop
  | .start _ | .stop _ => False
  | .reconcile now => now < boundary
  | .autoStop _ _ | .leave => True

/-- The override of a manual action is in force until the boundary. -/
structure Held (run : Bool) (boundary : Int) (m : CrawlerManager) : Prop where
  override : m.manualOverride = true
  run_eq : m.manualRun = run
  until_eq : m.manualUntil = boundary
  running : m.running = run

/-- No override lasts beyond the boundary. -/
def EndsBy (boundary : Int) (m : CrawlerManager) : Prop :=
  m.manualOverride = true → m.manualUntil = boundary

theorem Held.endsBy {run : Bool} {boundary : Int} {m : CrawlerManager} (h : Held run boundary m) :
    EndsBy boundary m := fun _ => h.until_eq

section

variable {zone : Zone} {cfg : CrawlerConfiguration}

/-! ## Timers -/

theorem startLocked_timers {m : CrawlerManager} (hdisabled : cfg.crawlerAutoStopMinutes ≤ 0)
    (hcfg : m.configuration = cfg) (now : Int) : Run.timers (m.startLocked now).2 = [] := by
  subst hcfg
  obtain ⟨-, heq⟩ | ⟨-, -, _, _, _, _, heq, hnone⟩ := m.startLocked_cases now
  · rw [heq]
    rfl
  · rw [heq, hnone hdisabled]
    rfl

theorem reconcileSchedule_timers {m : CrawlerManager} (hdisabled : cfg.crawlerAutoStopMinutes ≤ 0)
    (hcfg : m.configuration = cfg) (now later : Int) :
    Run.timers (m.reconcileSchedule zone now later).2 = [] := by
  unfold reconcileSchedule
  split
  · rfl
  split
  · split
    · exact startLocked_timers hdisabled hcfg later
    · rfl
  · dsimp only
    split
    · exact startLocked_timers (m := { m with manualOverride := false, manualUntil := 0 })
        hdisabled hcfg later
    · rfl

/-- The manager has the configuration, and no run of it has a timer. -/
structure Untimed (cfg : CrawlerConfiguration) (s : Control) : Prop where
  manager : s.manager.Wellformed cfg
  timers : s.timers = []

theorem Untimed.step {s s' : Control} {a : ControlAction} (h : Untimed cfg s)
    (hdisabled : cfg.crawlerAutoStopMinutes ≤ 0) (hstep : ControlStep zone s a s') :
    Untimed cfg s' := by
  refine ⟨hstep.wellformed h.manager, ?_⟩
  have hcfg := h.manager.configuration
  cases hstep with
  | @start now later =>
    have hset := (h.manager.setManualOverrideAtLocked zone now true).configuration
    exact List.append_eq_nil_iff.2 ⟨h.timers, startLocked_timers hdisabled hset later⟩
  | stop => exact h.timers
  | @reconcile now later =>
    exact List.append_eq_nil_iff.2 ⟨h.timers, reconcileSchedule_timers hdisabled hcfg now later⟩
  | autoStop htimers | leave htimers =>
    rw [h.timers] at htimers
    cases List.append_eq_nil_iff.1 htimers.symm |>.2

/-! ## One step -/

theorem setManualOverrideAtLocked_eq {m : CrawlerManager} (hcfg : m.configuration = cfg)
    (henabled : cfg.crawlerScheduleEnabled = true)
    (d : DailyWindow cfg.crawlerScheduleStart cfg.crawlerScheduleEnd) {now : Int} (hnow : 0 ≤ now)
    (run : Bool) : m.setManualOverrideAtLocked zone now run = { m with
      manualOverride := true
      manualRun := run
      manualUntil := (d.window zone).next now } := by
  subst hcfg
  have hne : (d.window zone).next now ≠ 0 := (hnow.trans_lt ((d.window zone).lt_next now)).ne'
  simp only [setManualOverrideAtLocked, henabled, scheduleState_eq zone now d, if_neg hne,
    Bool.true_eq_false, if_false]

/-- A manual action overrides the schedule until its next boundary. -/
theorem Held.of_manual {s s' : Control} {a : ControlAction} {run : Bool} {t : Int}
    (hmanager : s.manager.Wellformed cfg) (hclock : 0 ≤ s.clock)
    (hserver : cfg.onlyWebServer = false) (henabled : cfg.crawlerScheduleEnabled = true)
    (d : DailyWindow cfg.crawlerScheduleStart cfg.crawlerScheduleEnd)
    (hstep : ControlStep zone s a s') (hmanual : a.manual = some (run, t)) :
    Held run ((d.window zone).next t) s'.manager := by
  have hfollow : ∀ later, 0 ≤ t → Held run ((d.window zone).next t)
      ((s.manager.setManualOverrideAtLocked zone t run).follow run later).1 := by
    intro later ht
    have hcfg := hmanager.configuration
    rw [setManualOverrideAtLocked_eq hcfg henabled d ht]
    obtain ⟨-, hoverride, hrun, huntil⟩ := follow_override { s.manager with
      manualOverride := true, manualRun := run, manualUntil := (d.window zone).next t } run later
    exact ⟨hoverride, hrun, huntil, follow_running _ (hcfg ▸ hserver) run later⟩
  cases hstep with
  | start hnow =>
    cases hmanual
    exact hfollow _ (hclock.trans hnow)
  | stop hnow =>
    cases hmanual
    exact hfollow t (hclock.trans hnow)
  | reconcile | autoStop | leave => cases hmanual

theorem Held.step {s s' : Control} {a : ControlAction} {run : Bool} {boundary : Int}
    (h : Held run boundary s.manager) (huntimed : Untimed cfg s)
    (hserver : cfg.onlyWebServer = false) (henabled : cfg.crawlerScheduleEnabled = true)
    (hstep : ControlStep zone s a s') (hok : ReconciledBefore boundary s a) :
    Held run boundary s'.manager := by
  have hcfg := huntimed.manager.configuration
  have htimers := huntimed.timers
  cases hstep with
  | start | stop => exact hok.elim
  | @reconcile now later =>
    have hforce : s.manager.Overridden now := ⟨h.override, h.until_eq ▸ hok⟩
    rw [reconcileSchedule_eq zone (hcfg ▸ hserver) (hcfg ▸ henabled), expire, wanted,
      if_pos hforce, if_pos hforce, h.run_eq]
    obtain ⟨-, hoverride, hrun, huntil⟩ := s.manager.follow_override run later
    exact ⟨hoverride.trans h.override, hrun.trans h.run_eq, huntil.trans h.until_eq,
      follow_running _ (hcfg ▸ hserver) run later⟩
  | autoStop heq | leave heq =>
    rw [htimers] at heq
    cases List.append_eq_nil_iff.1 heq.symm |>.2

theorem EndsBy.step {s s' : Control} {a : ControlAction} {boundary : Int}
    (h : EndsBy boundary s.manager) (huntimed : Untimed cfg s)
    (hserver : cfg.onlyWebServer = false) (henabled : cfg.crawlerScheduleEnabled = true)
    (hstep : ControlStep zone s a s') (hok : NotManual s a) : EndsBy boundary s'.manager := by
  have hcfg := huntimed.manager.configuration
  have htimers := huntimed.timers
  cases hstep with
  | start | stop => cases hok
  | @reconcile now later =>
    rw [reconcileSchedule_eq zone (hcfg ▸ hserver) (hcfg ▸ henabled)]
    obtain ⟨-, hoverride, -, huntil⟩ :=
      (s.manager.expire now).follow_override (s.manager.wanted zone now) later
    unfold EndsBy
    rw [hoverride, huntil]
    unfold expire
    split
    · exact h
    · exact fun hbad => by cases hbad
  | autoStop heq | leave heq =>
    rw [htimers] at heq
    cases List.append_eq_nil_iff.1 heq.symm |>.2

/-- Once no override is left, a reconciliation follows the window. -/
theorem EndsBy.reconcile {s s' : Control} {now boundary : Int} (h : EndsBy boundary s.manager)
    (hmanager : s.manager.Wellformed cfg) (hserver : cfg.onlyWebServer = false)
    (henabled : cfg.crawlerScheduleEnabled = true) (hnow : boundary ≤ now)
    (hstep : ControlStep zone s (.reconcile now) s') : s'.manager.running =
      (scheduleState zone now cfg.crawlerScheduleStart cfg.crawlerScheduleEnd).1 := by
  obtain rfl := hmanager.configuration
  have hfree : ¬ s.manager.Overridden now := by
    intro ⟨hoverride, huntil⟩
    rw [h hoverride] at huntil
    exact Int.not_lt.2 hnow huntil
  cases hstep with
  | @reconcile _ later =>
    exact (reconcileSchedule_running zone hserver henabled now later).trans (if_neg hfree)

/-! ## Every run -/

theorem controlSystem_untimed {s : Control} (hdisabled : cfg.crawlerAutoStopMinutes ≤ 0)
    (h : (controlSystem zone cfg).Reachable s) : Untimed cfg s := by
  refine System.invariant (P := Untimed cfg) ?_ ?_ h
  · intro s ⟨hmanager, _, htimers⟩
    exact ⟨hmanager ▸ .new cfg, htimers⟩
  · exact fun _ _ _ _ hs hstep => hs.step hdisabled hstep

/-- Under an enabled schedule with a valid window: the crawler runs if and only if it has a
    stop channel, no channel is closed twice, and no nil channel is. Without auto-stop a
    manual action lasts until the next boundary, and from then on each reconciliation
    follows the window. The timer of a run does nothing to a later run. -/
theorem control_laws {s : Control} (hserver : cfg.onlyWebServer = false)
    (henabled : cfg.crawlerScheduleEnabled = true)
    (d : DailyWindow cfg.crawlerScheduleStart cfg.crawlerScheduleEnd)
    (h : (controlSystem zone cfg).Reachable s) :
    (s.manager.running = true ↔ s.manager.stop ≠ none) ∧
    (s.manager.closed.Nodup ∧ none ∉ s.manager.closed) ∧
    (cfg.crawlerAutoStopMinutes ≤ 0 → ∀ a run t s', (controlSystem zone cfg).step s a s' →
      a.manual = some (run, t) → ∀ boundary, (d.window zone).FirstAfter t boundary →
        (∀ u, ((controlSystem zone cfg).restrict (ReconciledBefore boundary)).Steps s' u →
          u.manager.running = run) ∧
        (∀ u now v, ((controlSystem zone cfg).restrict NotManual).Steps s' u →
          (controlSystem zone cfg).step u (.reconcile now) v → boundary ≤ now →
          v.manager.running =
            (scheduleState zone now cfg.crawlerScheduleStart cfg.crawlerScheduleEnd).1)) ∧
    (0 < cfg.crawlerAutoStopMinutes → ∀ stop now s',
      (controlSystem zone cfg).step s (.autoStop stop now) s' →
      stop + 1 < s.manager.channels → s'.manager = s.manager) := by
  obtain ⟨hmanager, hclock⟩ := controlSystem_wellformed h
  refine ⟨?_, ⟨hmanager.nodup, ?_⟩, ?_, ?_⟩
  · rw [hmanager.running, Option.isSome_iff_ne_none]
  · intro hnil
    obtain ⟨c, hc, -⟩ := hmanager.closed none hnil
    cases hc
  · intro hdisabled a run t s' hstep hmanual boundary hboundary
    obtain rfl := (d.window zone).firstAfter_iff.1 hboundary
    have hheld := Held.of_manual hmanager hclock hserver henabled d hstep hmanual
    have huntimed := (controlSystem_untimed hdisabled h).step hdisabled hstep
    refine ⟨?_, ?_⟩
    · intro u hsteps
      have hu : Untimed cfg u ∧ Held run ((d.window zone).next t) u.manager := by
        refine System.Steps.preserves (P := fun u : Control => Untimed cfg u ∧ Held _ _ u.manager)
          ?_ hsteps ⟨huntimed, hheld⟩
        intro u b v ⟨huntimed, hheld⟩ ⟨hnext, hok⟩
        exact ⟨huntimed.step hdisabled hnext, hheld.step huntimed hserver henabled hnext hok⟩
      exact hu.2.running
    · intro u now v hsteps hlast hnow
      have hu : Untimed cfg u ∧ EndsBy ((d.window zone).next t) u.manager := by
        refine System.Steps.preserves (P := fun u : Control => Untimed cfg u ∧ EndsBy _ u.manager)
          ?_ hsteps ⟨huntimed, hheld.endsBy⟩
        intro u b v ⟨huntimed, hends⟩ ⟨hnext, hok⟩
        exact ⟨huntimed.step hdisabled hnext, hends.step huntimed hserver henabled hnext hok⟩
      exact hu.2.reconcile hu.1.manager hserver henabled hnow hlast
  · intro _ stop now s' hstep hlater
    cases hstep with
    | @autoStop pre post timer =>
      have hne : s.manager.stop ≠ some timer.stop := by
        intro hstop
        exact hlater.ne (hmanager.latest _ hstop)
      exact if_neg hne

end

/-! ## A night -/

def nightWindow : DailyWindow (ascii "22:00") (ascii "07:00") where
  startMinute := 1320
  endMinute := 420
  start_eq := by decide
  end_eq := by decide
  distinct := by decide

/-- A crawler for the night. -/
def nightCrawler (autoStopMinutes : Int64) : CrawlerConfiguration where
  onlyWebServer := false
  crawlerThreads := 4
  crawlerAutoStopMinutes := autoStopMinutes
  crawlerScheduleEnabled := true
  crawlerScheduleStart := ascii "22:00"
  crawlerScheduleEnd := ascii "07:00"

def newControl (cfg : CrawlerConfiguration) : Control := ⟨newCrawlerManager cfg, 0, []⟩

theorem init_newControl (zone : Zone) (cfg : CrawlerConfiguration) :
    (controlSystem zone cfg).init (newControl cfg) := ⟨rfl, le_rfl, rfl⟩

/-- It is started at 18:00 and still runs when the schedule is reconciled at 21:00; at 07:00
    on the next day it is stopped. -/
theorem control_laws_night :
    ∃ u v : Control, u.manager.running = true ∧ v.manager.running = false := by
  let sys := controlSystem 0 (nightCrawler 0)
  obtain ⟨s, hclock, hstart⟩ : ∃ s : Control, s.clock = hours 18 ∧
      sys.step (newControl (nightCrawler 0)) (.start (hours 18)) s :=
    ⟨_, rfl, .start (by decide) le_rfl⟩
  obtain ⟨-, -, hmanual, -⟩ := control_laws rfl rfl nightWindow
    (.init (init_newControl 0 (nightCrawler 0)))
  obtain ⟨hheld, hwindow⟩ := hmanual (by decide) _ true (hours 18) s hstart rfl (hours 22)
    ((nightWindow.window 0).firstAfter_iff.2 (by decide))
  have hevening : sys.step s (.reconcile (hours 21)) _ :=
    .reconcile (by rw [hclock]; decide) le_rfl
  have hmorning : sys.step s (.reconcile (hours 31)) _ :=
    .reconcile (by rw [hclock]; decide) le_rfl
  have hbefore : ReconciledBefore (hours 22) s (.reconcile (hours 21)) := by
    unfold ReconciledBefore
    decide
  exact ⟨_, _, hheld _ (.single ⟨hevening, hbefore⟩),
    (hwindow _ (hours 31) _ (.refl _) hmorning (by decide)).trans (by decide)⟩

end Ui
