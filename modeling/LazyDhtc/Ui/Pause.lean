-- SUMMARY: How long a pause lasts: until the next change of the schedule, or for good without one, unless someone starts the crawler.
import LazyDhtc.Ui.RemoteControl

/-!
# Pauses

A stop overrides the schedule until its next change. Neither the timers nor the
reconciliations before that start the crawler again. Without a schedule, or with one that
cannot be read, only a start does.
-/

namespace Ui

open Cluster DhtClient Periodic Transition CrawlerManager

/-- What does not end a pause, given the next change of the schedule at the time it was made. -/
def Undisturbed (crawler : CrawlerConfiguration) (boundary : Int) : ControlAction → Prop
  | .start _ => False
  | .reconcile now => crawler.crawlerScheduleEnabled = true → boundary = 0 ∨ now < boundary
  | .stop _ | .autoStop _ _ | .leave => True

/-- A schedule that cannot be read wants nothing and never changes. -/
theorem scheduleState_none {startText endText : Bytes} (h : IsEmpty (DailyWindow startText endText))
    (zone : Zone) (now : Int) : scheduleState zone now startText endText = (false, 0) := by
  unfold scheduleState
  split
  · next startMinute endMinute hstart hend =>
    have heq : startMinute = endMinute := by
      by_contra hne
      exact h.elim ⟨startMinute, endMinute, hstart, hend, hne⟩
    exact if_pos heq
  · rfl

section

variable {zone : Zone} {crawler : CrawlerConfiguration}

/-- The next change does not get earlier. -/
theorem next_mono (w : Window) {t u : Int} (h : t ≤ u) : w.next t ≤ w.next u := by
  by_cases hu : u < w.next t
  · exact (w.next_before h hu).ge
  · exact (Int.not_lt.1 hu).trans (w.lt_next u).le

/-- The crawler has been stopped at `t`, and not been started since. -/
structure Paused (zone : Zone) (crawler : CrawlerConfiguration) (t : Int) (s : Control) : Prop where
  configuration : s.manager.configuration = crawler
  running : s.manager.running = false
  stop : s.manager.stop = none
  time : 0 ≤ t
  clock : t ≤ s.clock
  held : crawler.onlyWebServer = false → crawler.crawlerScheduleEnabled = true →
    ∀ d : DailyWindow crawler.crawlerScheduleStart crawler.crawlerScheduleEnd,
      s.manager.manualOverride = true ∧ s.manager.manualRun = false ∧
        (d.window zone).next t ≤ s.manager.manualUntil
  unheld : IsEmpty (DailyWindow crawler.crawlerScheduleStart crawler.crawlerScheduleEnd) →
    s.manager.manualOverride = false

/-- Without a window there are no overrides. -/
theorem setManualOverrideAtLocked_none {m : CrawlerManager}
    (h : IsEmpty (DailyWindow m.configuration.crawlerScheduleStart
      m.configuration.crawlerScheduleEnd)) (zone : Zone) (now : Int) (run : Bool) :
    m.setManualOverrideAtLocked zone now run = m := by
  unfold setManualOverrideAtLocked
  rw [scheduleState_none h zone now]
  simp

theorem stopLocked_of_stopped {m : CrawlerManager} (h : m.running = false) :
    m.stopLocked = (m, false) := by
  unfold stopLocked
  exact if_pos h

/-- What a stop leaves. -/
theorem Paused.of_stop {s s' : Control} {t now : Int} (hmanager : s.manager.Wellformed crawler)
    (ht : 0 ≤ t) (htnow : t ≤ now) (hclock : 0 ≤ s.clock)
    (hunheld : IsEmpty (DailyWindow crawler.crawlerScheduleStart crawler.crawlerScheduleEnd) →
      s.manager.manualOverride = false)
    (hstep : ControlStep zone s (.stop now) s') : Paused zone crawler t s' := by
  have hcfg := hmanager.configuration
  cases hstep with
  | stop hnow =>
    have hstopped := (hmanager.setManualOverrideAtLocked zone now false).stopLocked
    have hsame := (s.manager.setManualOverrideAtLocked zone now false).stopLocked_override
    have hrunning := stopLocked_running (s.manager.setManualOverrideAtLocked zone now false)
    refine ⟨hstopped.configuration, hrunning, ?_, ht, htnow, ?_, ?_⟩
    · have hnone := hstopped.running.symm.trans hrunning
      exact Option.not_isSome_iff_eq_none.1 (Bool.eq_false_iff.1 hnone)
    · intro _ henabled d
      have hheld : s.manager.setManualOverrideAtLocked zone now false = { s.manager with
          manualOverride := true
          manualRun := false
          manualUntil := (d.window zone).next now } :=
        setManualOverrideAtLocked_eq hcfg henabled d (hclock.trans hnow) false
      have hlater : (d.window zone).next t ≤ (d.window zone).next now := next_mono _ htnow
      refine ⟨hsame.override.trans ?_, hsame.run.trans ?_,
        hlater.trans (hsame.until_eq.trans ?_).ge⟩
      · rw [hheld]
      · rw [hheld]
      · rw [hheld]
    · intro hnone
      refine hsame.override.trans ?_
      rw [setManualOverrideAtLocked_none (hcfg ▸ hnone)]
      exact hunheld hnone

/-- A reconciliation keeps the override in force, or takes back one that does not matter. -/
theorem Paused.reconcileSchedule {s : Control} {t now : Int} (h : Paused zone crawler t s)
    (hnow : crawler.crawlerScheduleEnabled = true →
      (scheduleState zone t crawler.crawlerScheduleStart crawler.crawlerScheduleEnd).2 = 0 ∨
        now < (scheduleState zone t crawler.crawlerScheduleStart crawler.crawlerScheduleEnd).2)
    (later : Int) : s.manager.reconcileSchedule zone now later = (s.manager, none) ∨
      s.manager.reconcileSchedule zone now later =
        ({ s.manager with manualOverride := false, manualUntil := 0 }, none) ∧
      (crawler.onlyWebServer = true ∨ crawler.crawlerScheduleEnabled = false ∨
        IsEmpty (DailyWindow crawler.crawlerScheduleStart crawler.crawlerScheduleEnd)) := by
  obtain rfl := h.configuration
  by_cases hguard : s.manager.configuration.onlyWebServer = true ∨
      s.manager.configuration.crawlerScheduleEnabled = false
  · refine .inr ⟨?_, hguard.imp_right .inl⟩
    unfold CrawlerManager.reconcileSchedule
    exact if_pos (by simpa using hguard)
  · simp only [not_or, Bool.not_eq_true, Bool.not_eq_false] at hguard
    obtain ⟨hserver, henabled⟩ := hguard
    rw [reconcileSchedule_eq zone hserver henabled]
    rcases isEmpty_or_nonempty (DailyWindow s.manager.configuration.crawlerScheduleStart
      s.manager.configuration.crawlerScheduleEnd) with hnone | ⟨⟨d⟩⟩
    · have hfree : ¬ s.manager.Overridden now := fun hforce =>
        absurd ((h.unheld hnone).symm.trans hforce.1) Bool.false_ne_true
      have hunwanted : s.manager.wanted zone now = false := by
        rw [wanted, if_neg hfree, scheduleState_none hnone]
      rw [hunwanted, expire, if_neg hfree, follow, if_neg Bool.false_ne_true,
        stopLocked_of_stopped (by exact h.running)]
      exact .inr ⟨rfl, .inr (.inr hnone)⟩
    · obtain ⟨hoverride, hrun, huntil⟩ := h.held hserver henabled d
      rw [scheduleState_eq zone t d] at hnow
      have hbefore : now < (d.window zone).next t := by
        refine (hnow henabled).resolve_left fun hzero => ?_
        exact absurd hzero (h.time.trans_lt ((d.window zone).lt_next t)).ne'
      have hforce : s.manager.Overridden now := ⟨hoverride, hbefore.trans_le huntil⟩
      have hunwanted : s.manager.wanted zone now = false := by
        rw [wanted, if_pos hforce, hrun]
      rw [hunwanted, expire, if_pos hforce, follow, if_neg Bool.false_ne_true,
        stopLocked_of_stopped h.running]
      exact .inl rfl

theorem Paused.step {s s' : Control} {t : Int} {a : ControlAction}
    (h : Paused zone crawler t s) (hmanager : s.manager.Wellformed crawler)
    (ha : Undisturbed crawler
      (scheduleState zone t crawler.crawlerScheduleStart crawler.crawlerScheduleEnd).2 a)
    (hstep : ControlStep zone s a s') : Paused zone crawler t s' := by
  have hclock := h.clock.trans hstep.clock_le
  cases a with
  | start => exact ha.elim
  | stop now =>
    refine .of_stop hmanager h.time ?_ (h.time.trans h.clock) h.unheld hstep
    cases hstep with
    | stop hnow => exact h.clock.trans hnow
  | autoStop stop now =>
    cases hstep with
    | @autoStop pre post timer =>
      have hsame : s.manager.stopAfter timer.stop = s.manager := by
        unfold stopAfter
        rw [h.stop]
        exact if_neg (Option.some_ne_none _).symm
      have hnext : Paused zone crawler t { s with clock := now, timers := pre ++ post } :=
        ⟨h.configuration, h.running, h.stop, h.time, hclock, h.held, h.unheld⟩
      rw [hsame]
      exact hnext
  | leave =>
    cases hstep with
    | leave => exact ⟨h.configuration, h.running, h.stop, h.time, hclock, h.held, h.unheld⟩
  | reconcile now =>
    cases hstep with
    | @reconcile _ later =>
      obtain hsame | ⟨hsame, hfree⟩ := h.reconcileSchedule ha later
      · have hnext : Paused zone crawler t { s with clock := later, timers := s.timers ++ [] } :=
          ⟨h.configuration, h.running, h.stop, h.time, hclock, h.held, h.unheld⟩
        rw [hsame]
        exact hnext
      · rw [hsame]
        refine ⟨h.configuration, h.running, h.stop, h.time, hclock, ?_, fun _ => rfl⟩
        intro hserver henabled d
        obtain hbad | hbad | hbad := hfree
        · exact absurd (hserver.symm.trans hbad) Bool.false_ne_true
        · exact absurd (hbad.symm.trans henabled) Bool.false_ne_true
        · exact hbad.elim d

/-- Without a window there never is an override. -/
theorem controlSystem_unheld {s : Control}
    (hnone : IsEmpty (DailyWindow crawler.crawlerScheduleStart crawler.crawlerScheduleEnd))
    (h : (controlSystem zone crawler).Reachable s) : s.manager.manualOverride = false := by
  refine System.invariant (P := fun s : Control => s.manager.manualOverride = false) ?_ ?_ h
  · rintro s ⟨hmanager, -, -⟩
    rw [hmanager]
    rfl
  · intro s a s' hreach hs hstep
    have hcfg := (controlSystem_wellformed hreach).1.configuration
    have hempty := setManualOverrideAtLocked_none (m := s.manager) (hcfg ▸ hnone)
    cases hstep with
    | @start now later =>
      have hsame := (s.manager.setManualOverrideAtLocked zone now true).startLocked_override later
      refine hsame.override.trans ?_
      rw [hempty]
      exact hs
    | @stop now =>
      have hsame := (s.manager.setManualOverrideAtLocked zone now false).stopLocked_override
      refine hsame.override.trans ?_
      rw [hempty]
      exact hs
    | @reconcile now later =>
      refine Bool.eq_false_iff.2 fun htrue => ?_
      have hsame := (reconcileSchedule_override zone s.manager now later htrue).override
      exact absurd (hsame.symm.trans htrue) (by rw [hs]; exact Bool.false_ne_true)
    | @autoStop pre post timer => exact (s.manager.stopAfter_override timer.stop).1.trans hs
    | leave => exact hs

/-- After a stop the crawler does not run, as long as nothing disturbs the pause. -/
theorem paused_along {s s' : Control} {t : Int} {as : List ControlAction}
    (h : (controlSystem zone crawler).Reachable s)
    (hrun : (controlSystem zone crawler).Run s (.stop t :: as) s')
    (has : ∀ a ∈ as, Undisturbed crawler
      (scheduleState zone t crawler.crawlerScheduleStart crawler.crawlerScheduleEnd).2 a) :
    s'.manager.running = false := by
  cases hrun with
  | @cons _ u _ _ _ hstop hrest =>
    obtain ⟨hmanager, hclock⟩ := controlSystem_wellformed h
    have htime : 0 ≤ t := by
      cases hstop with
      | stop hnow => exact hclock.trans hnow
    have hpaused : Paused zone crawler t u :=
      .of_stop hmanager htime le_rfl hclock (fun hnone => controlSystem_unheld hnone h) hstop
    have hend : s'.manager.Wellformed crawler ∧ Paused zone crawler t s' := by
      refine hrest.preserves_along
        (P := fun s => s.manager.Wellformed crawler ∧ Paused zone crawler t s) ?_ has
        ⟨ControlStep.wellformed hstop hmanager, hpaused⟩
      intro c a c' hc ha hstep
      exact ⟨ControlStep.wellformed hstep hc.1, hc.2.step hc.1 ha hstep⟩
    exact hend.2.running

/-- When a master has paused a worker, and the call has returned without an error: at some
    time between the beginning of the call and its end the crawler was stopped, and it does
    not run now, unless someone has started it since then or the schedule has changed. -/
theorem pause_lasts {token : Bytes} {s : RemoteControl}
    (h : (remoteSystem zone crawler token).Reachable s) {k : Nat} {e : Exchange}
    (he : s.exchanges[k]? = some e) (hcall : e.call = some .pause)
    (hreturned : .returned k none ∈ s.history) : ∃ t pre post,
      s.history = pre ++ .acted (some k) (.stop t) :: post ∧ .called k ∈ pre ∧
      .returned k none ∈ post ∧
      ((∀ a ∈ post.filterMap ControlEvent.action, Undisturbed crawler
        (scheduleState zone t crawler.crawlerScheduleStart crawler.crawlerScheduleEnd).2 a) →
        s.control.manager.running = false) := by
  have hlinear := remoteSystem_linear h
  obtain ⟨t, hsub⟩ := hlinear.effect he hcall hreturned
  obtain ⟨before, rest, hhistory, hcalled, hrest⟩ := List.cons_sublist_iff.1 hsub
  obtain ⟨middle, after, rfl, hacted, hlast⟩ := List.cons_sublist_iff.1 hrest
  obtain ⟨pre, post, rfl⟩ := List.append_of_mem hacted
  have hsplit : s.history = (before ++ pre) ++ .acted (some k) (.stop t) :: (post ++ after) := by
    rw [hhistory]
    simp [Command.at]
  refine ⟨t, before ++ pre, post ++ after, hsplit, List.mem_append_left _ hcalled,
    List.mem_append_right _ (List.singleton_sublist.1 hlast), fun hpost => ?_⟩
  obtain ⟨start, hinit, hrun⟩ := hlinear.run
  rw [hsplit, List.filterMap_append] at hrun
  obtain ⟨c, hbefore, hafter⟩ := hrun.split
  exact paused_along (hbefore.reachable (.init hinit)) hafter hpost

end

/-- The worker that has been paused at six in the evening does not run. -/
theorem pause_lasts_evening : ∃ s : RemoteControl, s.history = pausedHistory ∧
    ∃ t pre post, s.history = pre ++ .acted (some 0) (.stop t) :: post ∧ .called 0 ∈ pre ∧
      .returned 0 none ∈ post ∧
      ((∀ a ∈ post.filterMap ControlEvent.action, Undisturbed (nightCrawler 0)
        (scheduleState 0 t (ascii "22:00") (ascii "07:00")).2 a) →
        s.control.manager.running = false) := by
  obtain ⟨s, hreach, hhistory, e, hexchanges, hcall⟩ := reachable_paused
  have hlast : ControlEvent.returned 0 none ∈ s.history := by
    rw [hhistory]
    simp [pausedHistory]
  exact ⟨s, hhistory, pause_lasts hreach (by rw [hexchanges]; rfl) hcall hlast⟩

end Ui
