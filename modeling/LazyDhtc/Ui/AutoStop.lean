-- SUMMARY: When the stop of an auto-stop timer lasts until the next boundary of the schedule.
import LazyDhtc.Ui.ManualOverride

/-!
# Auto-stop

The timer of a run takes back the wish of a manual override for the crawler to run, but makes
no override of its own. Without one the next reconciliation looks at the window only.
-/

namespace Ui

open DhtClient Periodic Transition CrawlerManager

/-- No manual start, and all reconciliations are before the boundary. -/
def QuietBefore (boundary : Int) (_ : Control) : ControlAction → Prop
  | .start _ => False
  | .reconcile now => now < boundary
  | .stop _ | .autoStop _ _ | .leave => True

section

variable {zone : Zone} {cfg : CrawlerConfiguration}
  (d : DailyWindow cfg.crawlerScheduleStart cfg.crawlerScheduleEnd)

/-! ## Overrides -/

/-- An override lasts until the first boundary after some time in the past. -/
def EndsAtBoundary (zone : Zone) (s : Control) : Prop :=
  s.manager.manualOverride = true → ∃ t ≤ s.clock, s.manager.manualUntil = (d.window zone).next t

variable {d}

theorem EndsAtBoundary.keep {s s' : Control} (h : EndsAtBoundary d zone s)
    (hclock : s.clock ≤ s'.clock) (hoverride : s'.manager.manualOverride = s.manager.manualOverride)
    (huntil : s'.manager.manualUntil = s.manager.manualUntil) : EndsAtBoundary d zone s' := by
  intro htrue
  obtain ⟨t, ht, heq⟩ := h (hoverride.symm.trans htrue)
  exact ⟨t, ht.trans hclock, huntil.trans heq⟩

theorem EndsAtBoundary.step {s s' : Control} {a : ControlAction} (h : EndsAtBoundary d zone s)
    (hmanager : s.manager.Wellformed cfg) (hzero : 0 ≤ s.clock)
    (henabled : cfg.crawlerScheduleEnabled = true) (hstep : ControlStep zone s a s') :
    EndsAtBoundary d zone s' := by
  have hclock := hstep.clock_le
  have hset : ∀ now run, s.clock ≤ now →
      (s.manager.setManualOverrideAtLocked zone now run).manualUntil = (d.window zone).next now := by
    intro now run hnow
    rw [setManualOverrideAtLocked_eq hmanager.configuration henabled d (hzero.trans hnow)]
  cases hstep with
  | @start now later hnow hlater =>
    intro _
    have hsame := (s.manager.setManualOverrideAtLocked zone now true).startLocked_override later
    exact ⟨now, hlater, hsame.until_eq.trans (hset now true hnow)⟩
  | @stop now hnow =>
    intro _
    have hsame := (s.manager.setManualOverrideAtLocked zone now false).stopLocked_override
    exact ⟨now, le_rfl, hsame.until_eq.trans (hset now false hnow)⟩
  | @reconcile now later =>
    intro htrue
    have hsame := reconcileSchedule_override zone s.manager now later htrue
    exact h.keep hclock hsame.override hsame.until_eq htrue
  | @autoStop pre post timer now =>
    obtain ⟨hoverride, huntil⟩ := s.manager.stopAfter_override timer.stop
    exact h.keep hclock hoverride huntil
  | leave => exact h

theorem controlSystem_endsAtBoundary {s : Control} (henabled : cfg.crawlerScheduleEnabled = true)
    (h : (controlSystem zone cfg).Reachable s) : EndsAtBoundary d zone s := by
  refine System.invariant (P := EndsAtBoundary d zone) ?_ ?_ h
  · intro s ⟨hmanager, _, _⟩ htrue
    rw [hmanager] at htrue
    cases htrue
  · intro s a s' hreach hs hstep
    obtain ⟨hmanager, hzero⟩ := controlSystem_wellformed hreach
    exact hs.step hmanager hzero henabled hstep

/-- An override in force is in force until the next boundary. -/
theorem EndsAtBoundary.until_eq {s : Control} (h : EndsAtBoundary d zone s) {now : Int}
    (hnow : s.clock ≤ now) (hforce : s.manager.Overridden now) :
    s.manager.manualUntil = (d.window zone).next now := by
  obtain ⟨t, ht, heq⟩ := h hforce.1
  have hlt := hforce.2
  rw [heq] at hlt ⊢
  exact ((d.window zone).next_before (ht.trans hnow) hlt).symm

/-! ## Staying stopped -/

/-- The crawler does not run, and no reconciliation before the boundary wants it to. -/
structure StaysStopped (zone : Zone) (boundary : Int) (s : Control) : Prop where
  running : s.manager.running = false
  unwanted : ∀ now, s.clock ≤ now → now < boundary → s.manager.wanted zone now = false

/-- A reconciliation does not change what later ones want. -/
theorem wanted_reconcileSchedule (zone : Zone) {m : CrawlerManager}
    (hserver : m.configuration.onlyWebServer = false)
    (henabled : m.configuration.crawlerScheduleEnabled = true) {now now' : Int} (later : Int)
    (hnow : now ≤ now') :
    (m.reconcileSchedule zone now later).1.wanted zone now' = m.wanted zone now' := by
  rw [reconcileSchedule_eq zone hserver henabled, (follow_override _ _ _).wanted]
  unfold expire
  split
  · rfl
  · next hfree =>
    have hfree' : ¬ m.Overridden now' := by
      intro ⟨hoverride, huntil⟩
      exact hfree ⟨hoverride, hnow.trans_lt huntil⟩
    have hended : ¬ CrawlerManager.Overridden
        { m with manualOverride := false, manualUntil := 0 } now' := by
      intro ⟨hbad, _⟩
      cases hbad
    unfold wanted
    rw [if_neg hfree', if_neg hended]

/-- A manual stop is wanted until the next boundary. -/
theorem wanted_manualStop {m : CrawlerManager} (hcfg : m.configuration = cfg)
    (henabled : cfg.crawlerScheduleEnabled = true) {t now : Int} (ht : 0 ≤ t)
    (hnow : now < (d.window zone).next t) : (m.manualStop zone t).1.wanted zone now = false := by
  unfold manualStop
  rw [(stopLocked_override _).wanted, setManualOverrideAtLocked_eq hcfg henabled d ht]
  exact if_pos ⟨rfl, hnow⟩

theorem StaysStopped.step {s s' : Control} {a : ControlAction} {now : Int}
    (h : StaysStopped zone ((d.window zone).next now) s) (hnow : now ≤ s.clock)
    (hmanager : s.manager.Wellformed cfg) (hzero : 0 ≤ s.clock)
    (hserver : cfg.onlyWebServer = false) (henabled : cfg.crawlerScheduleEnabled = true)
    (hstep : ControlStep zone s a s') (hok : QuietBefore ((d.window zone).next now) s a) :
    StaysStopped zone ((d.window zone).next now) s' := by
  have hcfg := hmanager.configuration
  cases hstep with
  | start => exact hok.elim
  | @stop t ht =>
    refine ⟨stopLocked_running _, ?_⟩
    intro u hu hlt
    have hsame := (d.window zone).next_before (hnow.trans ht) (hu.trans_lt hlt)
    exact wanted_manualStop hcfg henabled (hzero.trans ht) (hsame ▸ hlt)
  | @reconcile t later ht hlater =>
    have hunwanted := h.unwanted t ht hok
    refine ⟨?_, ?_⟩
    · rw [reconcileSchedule_eq zone (hcfg ▸ hserver) (hcfg ▸ henabled), hunwanted]
      exact stopLocked_running _
    · intro u hu hlt
      rw [wanted_reconcileSchedule zone (hcfg ▸ hserver) (hcfg ▸ henabled) later
        (hlater.trans hu)]
      exact h.unwanted u (ht.trans (hlater.trans hu)) hlt
  | @autoStop pre post timer t htimers ht =>
    have hne : s.manager.stop ≠ some timer.stop := by
      intro hstop
      have hrunning := hmanager.running
      rw [hstop, h.running] at hrunning
      cases hrunning
    have heq : s.manager.stopAfter timer.stop = s.manager := if_neg hne
    rw [heq]
    exact ⟨h.running, fun u hu hlt => h.unwanted u (ht.trans hu) hlt⟩
  | leave => exact ⟨h.running, h.unwanted⟩

/-- What the timer of the current run does. -/
theorem stopAfter_current {m : CrawlerManager} {stop : Nat} (h : m.stop = some stop) :
    m.stopAfter stop = { m with manualRun := false }.stopLocked.1 := if_pos h

theorem wanted_stopAfter {m : CrawlerManager} {stop : Nat} {now : Int}
    (hcurrent : m.stop = some stop) (hfree : ¬ m.Overridden now) :
    (m.stopAfter stop).wanted zone now = (scheduleState zone now
      m.configuration.crawlerScheduleStart m.configuration.crawlerScheduleEnd).1 := by
  rw [stopAfter_current hcurrent, (stopLocked_override _).wanted]
  exact if_neg hfree

/-- The timer stops the crawler for good if there is an override that ends at the boundary, or
    the window is closed. -/
theorem StaysStopped.of_autoStop {m : CrawlerManager} {stop : Nat} {clock now : Int}
    {timers : List Timer} (hcfg : m.configuration = cfg) (hcurrent : m.stop = some stop)
    (h : (m.manualOverride = true ∧ m.manualUntil = (d.window zone).next now) ∨
      (scheduleState zone now cfg.crawlerScheduleStart cfg.crawlerScheduleEnd).1 = false)
    (hclock : now ≤ clock) :
    StaysStopped zone ((d.window zone).next now) ⟨m.stopAfter stop, clock, timers⟩ := by
  subst hcfg
  rw [stopAfter_current hcurrent]
  refine ⟨stopLocked_running _, ?_⟩
  intro u hu hlt
  have hnow := hclock.trans hu
  dsimp only
  rw [(stopLocked_override _).wanted]
  obtain ⟨hoverride, huntil⟩ | hclosed := h
  · exact if_pos ⟨hoverride, huntil ▸ hlt⟩
  · have hclosed' : (scheduleState zone u m.configuration.crawlerScheduleStart
        m.configuration.crawlerScheduleEnd).1 = false := by
      rw [scheduleState_eq zone _ d, decide_eq_false_iff_not] at hclosed ⊢
      exact mt ((d.window zone).open_before hnow hlt).1 hclosed
    unfold wanted
    split
    · rfl
    · exact hclosed'

/-- After the timer of the current run has stopped it, no reconciliation before the next
    boundary makes the crawler run again, if and only if the timer found an override in force
    or the window closed. -/
theorem autoStop_sticks_iff {s s' : Control} {stop : Nat} {now boundary : Int}
    (henabled : cfg.crawlerScheduleEnabled = true)
    (d : DailyWindow cfg.crawlerScheduleStart cfg.crawlerScheduleEnd)
    (h : (controlSystem zone cfg).Reachable s)
    (hstep : (controlSystem zone cfg).step s (.autoStop stop now) s')
    (hcurrent : s.manager.stop = some stop) (hboundary : (d.window zone).FirstAfter now boundary) :
    (∀ u, ((controlSystem zone cfg).restrict (QuietBefore boundary)).Steps s' u →
      u.manager.running = false) ↔
    (s.manager.Overridden now ∨
      (scheduleState zone now cfg.crawlerScheduleStart cfg.crawlerScheduleEnd).1 = false) := by
  obtain rfl := (d.window zone).firstAfter_iff.1 hboundary
  obtain ⟨hmanager, hzero⟩ := controlSystem_wellformed h
  have hends : EndsAtBoundary d zone s := controlSystem_endsAtBoundary henabled h
  have hcfg := hmanager.configuration
  have hserver : cfg.onlyWebServer = false := by
    refine hmanager.server ?_
    rw [hmanager.running, hcurrent]
    rfl
  have hmanager' := ControlStep.wellformed hstep hmanager
  have hzero' := hzero.trans (ControlStep.clock_le hstep)
  cases hstep with
  | @autoStop pre post timer now htimers hnow hdeadline =>
    constructor
    · intro hquiet
      by_contra hnot
      obtain ⟨hfree, hopen⟩ := not_or.1 hnot
      -- a reconciliation at once sees an open window
      have hreconcile : ControlStep zone ⟨s.manager.stopAfter timer.stop, now, pre ++ post⟩
          (.reconcile now) _ := .reconcile le_rfl le_rfl
      have hstopped := hquiet _ (.single ⟨hreconcile, (d.window zone).lt_next now⟩)
      have hcfg' := hmanager'.configuration
      have hrunning := reconcileSchedule_running zone (hcfg' ▸ hserver) (hcfg' ▸ henabled) now now
      rw [wanted_stopAfter hcurrent hfree, hcfg] at hrunning
      exact hopen (hrunning.symm.trans hstopped)
    · intro hcond u hsteps
      have hstay : StaysStopped zone ((d.window zone).next now)
          ⟨s.manager.stopAfter timer.stop, now, pre ++ post⟩ := by
        refine .of_autoStop hcfg hcurrent (hcond.imp_left ?_) le_rfl
        exact fun hforce => ⟨hforce.1, hends.until_eq hnow hforce⟩
      have hu : u.manager.Wellformed cfg ∧ 0 ≤ u.clock ∧ now ≤ u.clock ∧
          StaysStopped zone ((d.window zone).next now) u := by
        refine System.Steps.preserves (P := fun u : Control => u.manager.Wellformed cfg ∧
          0 ≤ u.clock ∧ now ≤ u.clock ∧ StaysStopped zone ((d.window zone).next now) u)
          ?_ hsteps ⟨hmanager', hzero', le_rfl, hstay⟩
        intro u a v ⟨hu, hpos, hle, hstay⟩ ⟨hnext, hok⟩
        have hclock := ControlStep.clock_le hnext
        exact ⟨ControlStep.wellformed hnext hu, hpos.trans hclock, hle.trans hclock,
          hstay.step hle hu hpos hserver henabled hnext hok⟩
      exact hu.2.2.2.running

end

/-! ## A run of one hour -/

/-- The crawler is started by hand at 23:00, and its timer stops it at midnight for the night. -/
theorem autoStop_sticks_iff_manual : ∃ s s', s.manager.running = true ∧
    (controlSystem 0 (nightCrawler 60)).step s (.autoStop 0 (hours 24)) s' ∧
    ∀ u, ((controlSystem 0 (nightCrawler 60)).restrict (QuietBefore (hours 31))).Steps s' u →
      u.manager.running = false := by
  obtain ⟨s, hstart, hclock, htimers, hcurrent, hrunning, hforce⟩ : ∃ s : Control,
      (controlSystem 0 (nightCrawler 60)).step (newControl (nightCrawler 60))
        (.start (hours 23)) s ∧ s.clock = hours 23 ∧ s.timers = [] ++ ⟨0, hours 24⟩ :: [] ∧
      s.manager.stop = some 0 ∧ s.manager.running = true ∧ s.manager.Overridden (hours 24) :=
    ⟨_, .start (by decide) le_rfl, rfl, rfl, rfl, rfl, by decide⟩
  have hreach := System.Reachable.step (.init (init_newControl 0 (nightCrawler 60))) hstart
  have hstop : (controlSystem 0 (nightCrawler 60)).step s (.autoStop 0 (hours 24)) _ :=
    .autoStop htimers (by rw [hclock]; decide) le_rfl
  have hboundary : (nightWindow.window 0).FirstAfter (hours 24) (hours 31) :=
    (nightWindow.window 0).firstAfter_iff.2 (by decide)
  exact ⟨s, _, hrunning, hstop,
    (autoStop_sticks_iff rfl nightWindow hreach hstop hcurrent hboundary).2 (.inl hforce)⟩

/-- The schedule starts it at 23:00, its timer stops it at midnight, and the next
    reconciliation starts it again. -/
theorem autoStop_undone : ∃ s s' u stop now boundary,
    (controlSystem 0 (nightCrawler 60)).Reachable s ∧ s.manager.stop = some stop ∧
    (controlSystem 0 (nightCrawler 60)).step s (.autoStop stop now) s' ∧
    (nightWindow.window 0).FirstAfter now boundary ∧
    ((controlSystem 0 (nightCrawler 60)).restrict (QuietBefore boundary)).Steps s' u ∧
    u.manager.running = true := by
  obtain ⟨s, hstart, hclock, htimers, hcurrent, hundone⟩ : ∃ s : Control,
      (controlSystem 0 (nightCrawler 60)).step (newControl (nightCrawler 60))
        (.reconcile (hours 23)) s ∧ s.clock = hours 23 ∧ s.timers = [] ++ ⟨0, hours 24⟩ :: [] ∧
      s.manager.stop = some 0 ∧
      ((s.manager.stopAfter 0).reconcileSchedule 0 (hours 24) (hours 24)).1.running = true :=
    ⟨_, .reconcile (by decide) le_rfl, rfl, rfl, rfl, rfl⟩
  have hreach := System.Reachable.step (.init (init_newControl 0 (nightCrawler 60))) hstart
  have hstop : (controlSystem 0 (nightCrawler 60)).step s (.autoStop 0 (hours 24)) _ :=
    .autoStop htimers (by rw [hclock]; decide) le_rfl
  have hreconcile : (controlSystem 0 (nightCrawler 60)).step
      ⟨s.manager.stopAfter 0, hours 24, []⟩ (.reconcile (hours 24)) _ := .reconcile le_rfl le_rfl
  have hquiet : QuietBefore (hours 31) ⟨s.manager.stopAfter 0, hours 24, []⟩
      (.reconcile (hours 24)) := by
    unfold QuietBefore
    decide
  exact ⟨s, _, _, 0, hours 24, hours 31, hreach, hcurrent, hstop,
    (nightWindow.window 0).firstAfter_iff.2 (by decide), .single ⟨hreconcile, hquiet⟩, hundone⟩

end Ui
