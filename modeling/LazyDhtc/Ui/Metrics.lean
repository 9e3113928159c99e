-- SUMMARY: The counters that the crawler reports: Status calls next to the sessions of a process, and when their reports never run backwards.
import LazyDhtc.Ui.Sessions

/-!
# Metrics

The totals hold the counters of the managers that were folded into them. A report is the sum
of the totals and the counters of the manager that is published. `Status` holds the mutex,
but the goroutines of the managers count on while it loads one counter after the other.
-/

namespace Ui

open Cache Transition

/-! ## Counters -/

inductive Metric where
  | outputDropped
  | getPeersRejected
  | getPeersDeduped
  | getPeersSendDropped

def Counters.get (c : Counters) : Metric → UInt64
  | .outputDropped => c.outputDropped
  | .getPeersRejected => c.getPeersRejected
  | .getPeersDeduped => c.getPeersDeduped
  | .getPeersSendDropped => c.getPeersSendDropped

/-- The unsigned differences between two reports. -/
def Counters.sub (c d : Counters) : Counters where
  outputDropped := c.outputDropped - d.outputDropped
  getPeersRejected := c.getPeersRejected - d.getPeersRejected
  getPeersDeduped := c.getPeersDeduped - d.getPeersDeduped
  getPeersSendDropped := c.getPeersSendDropped - d.getPeersSendDropped

@[simp] theorem Counters.get_add (c d : Counters) (m : Metric) :
    (c.add d).get m = c.get m + d.get m := by
  cases m <;> rfl

@[simp] theorem Counters.get_sub (c d : Counters) (m : Metric) :
    (c.sub d).get m = c.get m - d.get m := by
  cases m <;> rfl

@[simp] theorem zeroCounters_get (m : Metric) : zeroCounters.get m = 0 := by
  cases m <;> rfl

/-- The intervals that the ticks of `logWorkerMetrics` log. -/
def logWorkerMetrics (previous : Counters) : List Counters → List Counters
  | [] => []
  | status :: statuses => status.sub previous :: logWorkerMetrics status statuses

/-! ## Status -/

/-- The counters of a session's manager. -/
def Process.countersOf (s : Process) (stop : Nat) : Counters :=
  ((s.sessions.find? fun e => decide (e.stop = stop)).map fun e => e.counters).getD zeroCounters

/-- What `Status` makes of a counter. The totals do not change while it holds the mutex. The
    counters of a manager's services grow by one at a time, so the sum of their loads is a
    value that their sum had in between. -/
def Process.load (s : Process) (m : Metric) : UInt64 :=
  match s.activeDHTManager with
  | none => s.totals.get m
  | some stop => s.totals.get m + (s.countersOf stop).get m

/-- How far a `Status` call that holds the mutex is. -/
inductive StatusCall where
  | locked
  | dropped (outputDropped : UInt64)
  | rejected (outputDropped getPeersRejected : UInt64)
  | deduped (outputDropped getPeersRejected getPeersDeduped : UInt64)

/-- What a call has loaded. -/
def StatusCall.loaded : StatusCall → Metric → Option UInt64
  | .dropped o, .outputDropped => some o
  | .rejected o _, .outputDropped => some o
  | .rejected _ r, .getPeersRejected => some r
  | .deduped o _ _, .outputDropped => some o
  | .deduped _ r _, .getPeersRejected => some r
  | .deduped _ _ d, .getPeersDeduped => some d
  | _, _ => none

/-- A process with the `Status` call that is going on and the reports of all earlier ones. -/
structure Observed where
  process : Process
  status : Option StatusCall
  reports : List Counters

inductive ObservedAction where
  | process (a : ProcessAction)
  | count (more : Counters)
  | lock
  | load (m : Metric)

/-- The step needs the mutex of the crawler manager. -/
def ProcessAction.locks : ProcessAction → Bool
  | .control .leave => false
  | .control _ => true
  | .publish => true
  | .fold => true
  | _ => false

inductive ObservedStep (zone : Zone) (cfg : CrawlConfig) :
    Observed → ObservedAction → Observed → Prop where
  | process {s : Observed} {a : ProcessAction} {p : Process} :
      ProcessStep zone cfg s.process a p → a ≠ .count → (a.locks = true → s.status = none) →
      ObservedStep zone cfg s (.process a) { s with process := p }
  | count {s : Observed} {pre post : List Session} {stop : Nat} {pc : SessionPC}
      {n more : Counters} : s.process.sessions = pre ++ ⟨stop, pc, n⟩ :: post →
      pc.alive = true →
      ObservedStep zone cfg s (.count more)
        { s with process :=
          { s.process with sessions := pre ++ ⟨stop, pc, n.add more⟩ :: post } }
  | lock {s : Observed} : s.status = none →
      ObservedStep zone cfg s .lock { s with status := some .locked }
  | loadDropped {s : Observed} : s.status = some .locked →
      ObservedStep zone cfg s (.load .outputDropped)
        { s with status := some (.dropped (s.process.load .outputDropped)) }
  | loadRejected {s : Observed} {o : UInt64} : s.status = some (.dropped o) →
      ObservedStep zone cfg s (.load .getPeersRejected)
        { s with status := some (.rejected o (s.process.load .getPeersRejected)) }
  | loadDeduped {s : Observed} {o r : UInt64} : s.status = some (.rejected o r) →
      ObservedStep zone cfg s (.load .getPeersDeduped)
        { s with status := some (.deduped o r (s.process.load .getPeersDeduped)) }
  | loadSendDropped {s : Observed} {o r d : UInt64} : s.status = some (.deduped o r d) →
      ObservedStep zone cfg s (.load .getPeersSendDropped)
        { s with
          status := none
          reports := s.reports ++ [⟨o, r, d, s.process.load .getPeersSendDropped⟩] }

/-- Every interleaving of a process with calls of `Status`. -/
def observedSystem (zone : Zone) (cfg : CrawlConfig) (crawler : CrawlerConfiguration) :
    System Observed ObservedAction where
  init s := (processSystem zone cfg crawler).init s.process ∧ s.status = none ∧ s.reports = []
  step := ObservedStep zone cfg

/-- An `ObservedStep` is a step of the process or leaves it alone. -/
theorem observedSystem_projects (zone : Zone) (cfg : CrawlConfig)
    (crawler : CrawlerConfiguration) : (observedSystem zone cfg crawler).Projects
      (processSystem zone cfg crawler) Observed.process where
  init _ h := h.1
  step s a s' h := by
    cases h with
    | process hstep => exact .single hstep
    | count hsplit halive => exact .single (ProcessStep.count hsplit halive)
    | lock | loadDropped | loadRejected | loadDeduped | loadSendDropped => exact .refl _

/-! ## Sums over sessions -/

def SessionPC.isCrawling : SessionPC → Bool
  | .crawling _ => true
  | _ => false

def SessionPC.isEnded : SessionPC → Bool
  | .ended => true
  | _ => false

/-- The manager of the session has been published. -/
def SessionPC.isPublished (pc : SessionPC) : Bool := pc.isCrawling || pc.isEnded

/-- What the managers of the sessions in such a place have counted. -/
def countedBy (p : SessionPC → Bool) (m : Metric) (sessions : List Session) : Nat :=
  (sessions.map fun e => if p e.pc then (e.counters.get m).toNat else 0).sum

/-- What all managers have counted. -/
def counted (m : Metric) (sessions : List Session) : Nat := countedBy (fun _ => true) m sessions

/-- A manager is only published when none is, and fewer than 2^64 events are counted. -/
def PublishesAlone (s : Observed) : ObservedAction → Prop
  | .process .publish => s.process.activeDHTManager = none
  | .count more => ∀ m, counted m s.process.sessions + (more.get m).toNat < 2 ^ 64
  | _ => True

variable {p q : SessionPC → Bool} {m : Metric}

theorem countedBy_append (xs ys : List Session) :
    countedBy p m (xs ++ ys) = countedBy p m xs + countedBy p m ys := by
  simp [countedBy]

theorem countedBy_cons (e : Session) (xs : List Session) : countedBy p m (e :: xs) =
    (if p e.pc then (e.counters.get m).toNat else 0) + countedBy p m xs := by
  simp [countedBy]

theorem countedBy_eq_zero {xs : List Session} (h : ∀ e ∈ xs, p e.pc = false) :
    countedBy p m xs = 0 := by
  induction xs with
  | nil => rfl
  | cons e xs ih =>
    rw [countedBy_cons, h e List.mem_cons_self, ih fun e he => h e (List.mem_cons_of_mem _ he)]
    rfl

theorem countedBy_mono (h : ∀ pc, p pc = true → q pc = true) (xs : List Session) :
    countedBy p m xs ≤ countedBy q m xs := by
  induction xs with
  | nil => exact Nat.le_refl _
  | cons e xs ih =>
    rw [countedBy_cons, countedBy_cons]
    refine Nat.add_le_add ?_ ih
    by_cases hp : p e.pc = true
    · rw [if_pos hp, if_pos (h e.pc hp)]
    · rw [if_neg hp]
      exact Nat.zero_le _

theorem countedBy_published (xs : List Session) : countedBy SessionPC.isPublished m xs =
    countedBy SessionPC.isCrawling m xs + countedBy SessionPC.isEnded m xs := by
  induction xs with
  | nil => rfl
  | cons e xs ih =>
    rw [countedBy_cons, countedBy_cons, countedBy_cons, ih]
    obtain ⟨stop, pc, n⟩ := e
    cases pc <;> simp [SessionPC.isPublished, SessionPC.isCrawling, SessionPC.isEnded] <;> omega

theorem countedBy_split (p : SessionPC → Bool) (m : Metric) {sessions pre post : List Session}
    {e : Session} (h : sessions = pre ++ e :: post) (e' : Session) :
    countedBy p m (pre ++ e' :: post) + (if p e.pc then (e.counters.get m).toNat else 0) =
      countedBy p m sessions + (if p e'.pc then (e'.counters.get m).toNat else 0) := by
  rw [h, countedBy_append, countedBy_append, countedBy_cons, countedBy_cons]
  omega

/-! ## The accounts of a process -/

/-- The sessions have channels of their own, the published manager is that of the session
    that crawls, and the totals are what the ended sessions have counted. -/
structure Process.Accounts (s : Process) : Prop where
  nodup : (s.sessions.map Session.stop).Nodup
  fresh : ∀ e ∈ s.sessions, e.stop < s.control.manager.channels
  active : ∀ k, s.activeDHTManager = some k ↔
    ∃ e ∈ s.sessions, e.stop = k ∧ e.pc.isCrawling = true
  totals : ∀ m, s.totals.get m = UInt64.ofNat (countedBy SessionPC.isEnded m s.sessions)

theorem stop_ne {sessions pre post : List Session} {e : Session}
    (hnodup : (sessions.map Session.stop).Nodup) (hsplit : sessions = pre ++ e :: post) :
    ∀ e' ∈ pre ++ post, e'.stop ≠ e.stop := by
  rw [hsplit, List.map_append, List.map_cons] at hnodup
  intro e' he' heq
  have hnot := (List.nodup_middle.1 hnodup).notMem
  rw [← List.map_append, ← heq] at hnot
  exact hnot (List.mem_map_of_mem he')

theorem Process.Accounts.countersOf {s : Process} (h : s.Accounts) {pre post : List Session}
    {e : Session} (hsplit : s.sessions = pre ++ e :: post) :
    s.countersOf e.stop = e.counters := by
  have hpre : pre.find? (fun e' => decide (e'.stop = e.stop)) = none := by
    refine List.find?_eq_none.2 ?_
    intro e' he' heq
    exact stop_ne h.nodup hsplit e' (List.mem_append_left _ he') (of_decide_eq_true heq)
  unfold Process.countersOf
  rw [hsplit, List.find?_append, hpre, List.find?_cons_of_pos (by simp)]
  rfl

/-- A load is what the published managers have counted. -/
theorem Process.Accounts.load_eq {s : Process} (h : s.Accounts) (m : Metric) :
    s.load m = UInt64.ofNat (countedBy SessionPC.isPublished m s.sessions) := by
  rw [countedBy_published, UInt64.ofNat_add, ← h.totals m]
  unfold Process.load
  cases hactive : s.activeDHTManager with
  | none =>
    have hnone : countedBy SessionPC.isCrawling m s.sessions = 0 := by
      refine countedBy_eq_zero ?_
      intro e he
      by_contra hcrawling
      have hsome := (h.active e.stop).2 ⟨e, he, rfl, by simpa using hcrawling⟩
      rw [hactive] at hsome
      cases hsome
    rw [hnone]
    exact (UInt64.zero_add _).symm
  | some k =>
    obtain ⟨e, he, rfl, hcrawling⟩ := (h.active k).1 hactive
    obtain ⟨pre, post, hsplit⟩ := List.append_of_mem he
    have hothers : ∀ e' ∈ pre ++ post, e'.pc.isCrawling = false := by
      intro e' he'
      by_contra hbad
      have hin : e' ∈ s.sessions := by
        rw [hsplit]
        exact (List.mem_append.1 he').elim (List.mem_append_left _)
          fun hpost => List.mem_append_right _ (List.mem_cons_of_mem _ hpost)
      have hsame := (h.active e'.stop).2 ⟨e', hin, rfl, by simpa using hbad⟩
      rw [hactive] at hsame
      exact stop_ne h.nodup hsplit e' he' (Option.some.inj hsame).symm
    have hsum : countedBy SessionPC.isCrawling m s.sessions = (e.counters.get m).toNat := by
      rw [hsplit, countedBy_append, countedBy_cons, if_pos hcrawling,
        countedBy_eq_zero fun e he => hothers e (List.mem_append_left _ he),
        countedBy_eq_zero fun e he => hothers e (List.mem_append_right _ he)]
      omega
    dsimp only
    rw [h.countersOf hsplit, hsum, UInt64.ofNat_toNat, UInt64.add_comm]

theorem stops_replace {sessions pre post : List Session} {e e' : Session}
    (hsplit : sessions = pre ++ e :: post) (hstop : e'.stop = e.stop) :
    (pre ++ e' :: post).map Session.stop = sessions.map Session.stop := by
  rw [hsplit, List.map_append, List.map_append, List.map_cons, List.map_cons, hstop]

theorem nodup_replace {sessions pre post : List Session} {e e' : Session}
    (h : (sessions.map Session.stop).Nodup) (hsplit : sessions = pre ++ e :: post)
    (hstop : e'.stop = e.stop) : ((pre ++ e' :: post).map Session.stop).Nodup := by
  rw [stops_replace hsplit hstop]
  exact h

theorem fresh_replace {sessions pre post : List Session} {e e' : Session} {n : Nat}
    (h : ∀ e ∈ sessions, e.stop < n) (hsplit : sessions = pre ++ e :: post)
    (hstop : e'.stop = e.stop) : ∀ e ∈ pre ++ e' :: post, e.stop < n := by
  intro e'' he''
  have hmem : e''.stop ∈ (pre ++ e' :: post).map Session.stop := List.mem_map_of_mem he''
  rw [stops_replace hsplit hstop] at hmem
  obtain ⟨e₀, he₀, heq⟩ := List.mem_map.1 hmem
  exact heq ▸ h e₀ he₀

/-- A session moves on to a place where it crawls as it did, or counts. -/
theorem Process.Accounts.replace {s : Process} (h : s.Accounts) {pre post : List Session}
    {e e' : Session} {cache : InfoHashCache} (hsplit : s.sessions = pre ++ e :: post)
    (hstop : e'.stop = e.stop) (hcrawling : e'.pc.isCrawling = e.pc.isCrawling)
    (hended : e.pc.isEnded = false) (hended' : e'.pc.isEnded = false) :
    Process.Accounts { s with cache := cache, sessions := pre ++ e' :: post } where
  nodup := nodup_replace h.nodup hsplit hstop
  fresh := fresh_replace h.fresh hsplit hstop
  active k := by
    rw [h.active k, hsplit]
    simp only [List.mem_append, List.mem_cons, or_and_right, exists_or, exists_eq_left, hstop,
      hcrawling]
  totals m := by
    have hsum := countedBy_split SessionPC.isEnded m hsplit e'
    rw [hended, hended'] at hsum
    rw [h.totals m]
    exact congrArg UInt64.ofNat hsum.symm

theorem ControlStep.channels_le {zone : Zone} {s s' : Control} {a : ControlAction}
    (hstep : ControlStep zone s a s') : s.manager.channels ≤ s'.manager.channels := by
  rw [hstep.channels_eq]
  split
  · exact Nat.le_succ _
  · exact Nat.le_refl _

theorem Process.Accounts.control {zone : Zone} {s : Process} (h : s.Accounts)
    {a : ControlAction} {control : Control} (hstep : ControlStep zone s.control a control) :
    Process.Accounts { s with
      control := control
      sessions := s.sessions ++ spawned s.control.manager control.manager } := by
  unfold spawned
  split
  · next hmore =>
    refine ⟨?_, ?_, ?_, ?_⟩
    · rw [List.map_append]
      refine h.nodup.append (List.nodup_singleton _) ?_
      intro k hk hk'
      obtain ⟨e, he, rfl⟩ := List.mem_map.1 hk
      exact (h.fresh e he).ne (List.mem_singleton.1 hk')
    · intro e he
      rcases List.mem_append.1 he with he | he
      · exact (h.fresh e he).trans_le hstep.channels_le
      · rw [List.mem_singleton.1 he]
        exact hmore
    · intro k
      refine (h.active k).trans ⟨?_, ?_⟩
      · rintro ⟨e, he, hk⟩
        exact ⟨e, List.mem_append_left _ he, hk⟩
      · rintro ⟨e, he, rfl, hcrawling⟩
        rcases List.mem_append.1 he with he | he
        · exact ⟨e, he, rfl, hcrawling⟩
        · rw [List.mem_singleton.1 he] at hcrawling
          cases hcrawling
    · intro m
      rw [countedBy_append, countedBy_cons]
      exact h.totals m
  · rw [List.append_nil]
    exact ⟨h.nodup, fun e he => (h.fresh e he).trans_le hstep.channels_le, h.active, h.totals⟩

theorem Process.Accounts.publish {s : Process} (h : s.Accounts) {pre post : List Session}
    {stop : Nat} {n : Counters} (hsplit : s.sessions = pre ++ ⟨stop, .bound, n⟩ :: post)
    (hnone : s.activeDHTManager = none) (c : CrawlState) :
    Process.Accounts { s with
      sessions := pre ++ ⟨stop, .crawling c, n⟩ :: post
      activeDHTManager := some stop } where
  nodup := nodup_replace h.nodup hsplit rfl
  fresh := fresh_replace h.fresh hsplit rfl
  active k := by
    have hothers : ∀ e ∈ pre ++ post, e.pc.isCrawling = false := by
      intro e he
      by_contra hcrawling
      have hin : e ∈ s.sessions := hsplit ▸ List.mem_append.2
        ((List.mem_append.1 he).imp_right (List.mem_cons_of_mem _))
      have hsome := (h.active e.stop).2 ⟨e, hin, rfl, by simpa using hcrawling⟩
      rw [hnone] at hsome
      cases hsome
    constructor
    · rintro ⟨⟩
      exact ⟨_, List.mem_append_right _ List.mem_cons_self, rfl, rfl⟩
    · rintro ⟨e, he, rfl, hcrawling⟩
      rcases List.mem_cons.1 (List.perm_middle.mem_iff.1 he) with rfl | he
      · rfl
      · rw [hothers e he] at hcrawling
        cases hcrawling
  totals m := by
    have hsum := countedBy_split SessionPC.isEnded m hsplit ⟨stop, .crawling c, n⟩
    rw [h.totals m]
    exact congrArg UInt64.ofNat hsum.symm

theorem Process.Accounts.fold {s : Process} (h : s.Accounts) {pre post : List Session}
    {stop : Nat} {n : Counters} {c : CrawlState}
    (hsplit : s.sessions = pre ++ ⟨stop, .crawling c, n⟩ :: post) :
    s.activeDHTManager = some stop ∧ Process.Accounts { s with
      sessions := pre ++ ⟨stop, .ended, n⟩ :: post
      activeDHTManager := none
      totals := s.totals.add n } := by
  have hactive : s.activeDHTManager = some stop :=
    (h.active stop).2 ⟨_, hsplit ▸ List.mem_append_right _ List.mem_cons_self, rfl, rfl⟩
  refine ⟨hactive, ⟨nodup_replace h.nodup hsplit rfl, fresh_replace h.fresh hsplit rfl, ?_, ?_⟩⟩
  · intro k
    refine iff_of_false (by simp) ?_
    rintro ⟨e, he, rfl, hcrawling⟩
    rcases List.mem_cons.1 (List.perm_middle.mem_iff.1 he) with rfl | he
    · cases hcrawling
    · have hin : e ∈ s.sessions := hsplit ▸ List.mem_append.2
        ((List.mem_append.1 he).imp_right (List.mem_cons_of_mem _))
      have hsame := (h.active e.stop).2 ⟨e, hin, rfl, hcrawling⟩
      rw [hactive] at hsame
      exact stop_ne h.nodup hsplit e he (Option.some.inj hsame).symm
  · intro m
    have hsum := countedBy_split SessionPC.isEnded m hsplit ⟨stop, .ended, n⟩
    have hsum' : countedBy SessionPC.isEnded m (pre ++ ⟨stop, .ended, n⟩ :: post) =
        countedBy SessionPC.isEnded m s.sessions + (n.get m).toNat := hsum
    rw [Counters.get_add, h.totals m, hsum', UInt64.ofNat_add, UInt64.ofNat_toNat]

/-! ## One step -/

/-- A step keeps the accounts, the published managers lose no counts and nothing is counted. -/
theorem ProcessStep.accounts {zone : Zone} {cfg : CrawlConfig} {s s' : Process}
    {a : ProcessAction} (hstep : ProcessStep zone cfg s a s') (ha : a ≠ .count)
    (hok : a = .publish → s.activeDHTManager = none) (h : s.Accounts) :
    s'.Accounts ∧ ∀ m, countedBy SessionPC.isPublished m s.sessions ≤
      countedBy SessionPC.isPublished m s'.sessions ∧
      counted m s'.sessions = counted m s.sessions := by
  -- a session that keeps its counters
  have hmoves : ∀ {pre post : List Session} {e : Session} (pc : SessionPC),
      s.sessions = pre ++ e :: post → (e.pc.isPublished = true → pc.isPublished = true) →
      ∀ m, countedBy SessionPC.isPublished m s.sessions ≤
        countedBy SessionPC.isPublished m (pre ++ ⟨e.stop, pc, e.counters⟩ :: post) ∧
        counted m (pre ++ ⟨e.stop, pc, e.counters⟩ :: post) = counted m s.sessions := by
    intro pre post e pc hsplit hpublished m
    have hsum := countedBy_split SessionPC.isPublished m hsplit ⟨e.stop, pc, e.counters⟩
    have hall := countedBy_split (fun _ => true) m hsplit ⟨e.stop, pc, e.counters⟩
    refine ⟨?_, Nat.add_right_cancel hall⟩
    by_cases hp : e.pc.isPublished = true
    · rw [if_pos hp, if_pos (hpublished hp)] at hsum
      exact (Nat.add_right_cancel hsum).ge
    · rw [if_neg hp] at hsum
      omega
  cases hstep with
  | @control a control hcontrol =>
    refine ⟨h.control hcontrol, fun m => ?_⟩
    have hnone : ∀ p, countedBy p m (spawned s.control.manager control.manager) = 0 := by
      intro p
      unfold spawned
      split
      · simp [countedBy]
      · rfl
    unfold counted
    rw [countedBy_append, countedBy_append, hnone, hnone]
    exact ⟨Nat.le_refl _, rfl⟩
  | enter hsplit => exact ⟨h.replace hsplit rfl rfl rfl rfl, hmoves .binding hsplit id⟩
  | bind hsplit => exact ⟨h.replace hsplit rfl rfl rfl rfl, hmoves .bound hsplit id⟩
  | publish hsplit => exact ⟨h.publish hsplit (hok rfl) _, hmoves _ hsplit fun _ => rfl⟩
  | crawl hsplit => exact ⟨h.replace hsplit rfl rfl rfl rfl, hmoves _ hsplit fun _ => rfl⟩
  | count => exact absurd rfl ha
  | fold hsplit =>
    obtain ⟨hactive, hfolded⟩ := h.fold hsplit
    rw [if_pos hactive, if_pos hactive]
    exact ⟨hfolded, hmoves .ended hsplit fun _ => rfl⟩

/-- A value that is not below any report and not above what the published managers have
    counted. -/
def Observed.Bounds (s : Observed) (m : Metric) (v : UInt64) : Prop :=
  (∀ r ∈ s.reports, r.get m ≤ v) ∧
    v.toNat ≤ countedBy SessionPC.isPublished m s.process.sessions

/-- The reports are in order, and what a call has loaded will not be below them. -/
structure Observed.Kept (s : Observed) : Prop where
  accounts : s.process.Accounts
  bounded : ∀ m, counted m s.process.sessions < 2 ^ 64
  ordered : ∀ m, s.reports.Pairwise fun r r' => r.get m ≤ r'.get m
  reported : ∀ m, ∀ r ∈ s.reports,
    (r.get m).toNat ≤ countedBy SessionPC.isPublished m s.process.sessions
  pending : ∀ c, s.status = some c → ∀ m v, c.loaded m = some v → s.Bounds m v

theorem Observed.Kept.load {s : Observed} (h : s.Kept) (m : Metric) :
    (s.process.load m).toNat = countedBy SessionPC.isPublished m s.process.sessions := by
  rw [h.accounts.load_eq]
  refine UInt64.toNat_ofNat_of_lt' ((countedBy_mono ?_ _).trans_lt (h.bounded m))
  exact fun _ _ => rfl

theorem Observed.Kept.load_bounds {s : Observed} (h : s.Kept) (m : Metric) :
    s.Bounds m (s.process.load m) := by
  refine ⟨fun r hr => UInt64.le_iff_toNat_le.2 ?_, (h.load m).le⟩
  rw [h.load m]
  exact h.reported m r hr

/-- The process moves on. -/
theorem Observed.Kept.process {s : Observed} (h : s.Kept) {p : Process} (haccounts : p.Accounts)
    (hbounded : ∀ m, counted m p.sessions < 2 ^ 64)
    (hmono : ∀ m, countedBy SessionPC.isPublished m s.process.sessions ≤
      countedBy SessionPC.isPublished m p.sessions) : Observed.Kept { s with process := p } where
  accounts := haccounts
  bounded := hbounded
  ordered := h.ordered
  reported m r hr := (h.reported m r hr).trans (hmono m)
  pending c hc m v hv := ⟨(h.pending c hc m v hv).1, (h.pending c hc m v hv).2.trans (hmono m)⟩

/-- A call loads a counter. -/
theorem Observed.Kept.status {s : Observed} (h : s.Kept) {c : StatusCall}
    (hloaded : ∀ m v, c.loaded m = some v → s.Bounds m v) :
    Observed.Kept { s with status := some c } where
  accounts := h.accounts
  bounded := h.bounded
  ordered := h.ordered
  reported := h.reported
  pending := by
    rintro _ ⟨⟩
    exact hloaded

/-- A call makes its report. -/
theorem Observed.Kept.report {s : Observed} (h : s.Kept) {r : Counters}
    (hbounds : ∀ m, s.Bounds m (r.get m)) :
    Observed.Kept { s with status := none, reports := s.reports ++ [r] } where
  accounts := h.accounts
  bounded := h.bounded
  ordered m := List.pairwise_append.2
    ⟨h.ordered m, List.pairwise_singleton _ _, fun r' hr' _ hr =>
      List.mem_singleton.1 hr ▸ (hbounds m).1 r' hr'⟩
  reported m r' hr' := by
    rcases List.mem_append.1 hr' with hr' | hr'
    · exact h.reported m r' hr'
    · exact List.mem_singleton.1 hr' ▸ (hbounds m).2
  pending := nofun

theorem ObservedStep.kept {zone : Zone} {cfg : CrawlConfig} {s s' : Observed}
    {a : ObservedAction} (hstep : ObservedStep zone cfg s a s') (hok : PublishesAlone s a)
    (h : s.Kept) : s'.Kept := by
  cases hstep with
  | @process a p hprocess ha hlock =>
    have halone : a = .publish → s.process.activeDHTManager = none := by
      rintro rfl
      exact hok
    obtain ⟨haccounts, hmono⟩ := hprocess.accounts ha halone h.accounts
    refine h.process haccounts (fun m => ?_) fun m => (hmono m).1
    rw [(hmono m).2]
    exact h.bounded m
  | @count pre post stop pc n more hsplit halive =>
    have hended : pc.isEnded = false := by
      cases pc with
      | ended => cases halive
      | _ => rfl
    have hsum := fun p m => countedBy_split p m hsplit ⟨stop, pc, n.add more⟩
    have hle : ∀ m, (n.get m).toNat ≤ counted m s.process.sessions := by
      intro m
      rw [hsplit, counted, countedBy_append, countedBy_cons, if_pos rfl]
      exact (Nat.le_add_right _ _).trans (Nat.le_add_left _ _)
    have hadd : ∀ m, ((n.add more).get m).toNat = (n.get m).toNat + (more.get m).toNat := by
      intro m
      have hfits := hok m
      have hn := hle m
      rw [Counters.get_add, UInt64.toNat_add, Nat.mod_eq_of_lt (by omega)]
    refine h.process (h.accounts.replace hsplit rfl rfl hended hended) (fun m => ?_) fun m => ?_
    · have hall : counted m (pre ++ ⟨stop, pc, n.add more⟩ :: post) + (n.get m).toNat =
          counted m s.process.sessions + ((n.add more).get m).toNat := hsum (fun _ => true) m
      have hfits := hok m
      rw [hadd m] at hall
      change counted m (pre ++ ⟨stop, pc, n.add more⟩ :: post) < 2 ^ 64
      omega
    · have hpublished := hsum SessionPC.isPublished m
      dsimp only at hpublished ⊢
      rw [hadd m] at hpublished
      split at hpublished <;> omega
  | lock => exact h.status fun m v hv => by cases m <;> cases hv
  | loadDropped hc =>
    refine h.status fun m v hv => ?_
    cases m <;> cases hv
    exact h.load_bounds _
  | loadRejected hc =>
    have hpending := h.pending _ hc
    refine h.status fun m v hv => ?_
    cases m <;> cases hv
    · exact hpending _ _ rfl
    · exact h.load_bounds _
  | loadDeduped hc =>
    have hpending := h.pending _ hc
    refine h.status fun m v hv => ?_
    cases m <;> cases hv
    · exact hpending _ _ rfl
    · exact hpending _ _ rfl
    · exact h.load_bounds _
  | loadSendDropped hc =>
    have hpending := h.pending _ hc
    refine h.report fun m => ?_
    cases m with
    | outputDropped | getPeersRejected | getPeersDeduped => exact hpending _ _ rfl
    | getPeersSendDropped => exact h.load_bounds _

/-! ## Runs -/

/-- Reports that are in order give intervals that add up to the last one. -/
theorem logWorkerMetrics_sum {m : Metric} {previous : Counters} {statuses : List Counters}
    (h : (previous :: statuses).Pairwise fun r r' => r.get m ≤ r'.get m) :
    ((logWorkerMetrics previous statuses).map fun d => (d.get m).toNat).sum +
      (previous.get m).toNat = (((previous :: statuses).getLast (by simp)).get m).toNat := by
  induction statuses generalizing previous with
  | nil => simp [logWorkerMetrics]
  | cons status statuses ih =>
    obtain ⟨hle, hrest⟩ := List.pairwise_cons.1 h
    have hfirst := hle status List.mem_cons_self
    have hsub : ((status.sub previous).get m).toNat =
        (status.get m).toNat - (previous.get m).toNat := by
      rw [Counters.get_sub, UInt64.toNat_sub_of_le _ _ hfirst]
    have hle := UInt64.le_iff_toNat_le.1 hfirst
    have hlater := ih hrest
    rw [List.getLast_cons (by simp), ← hlater, logWorkerMetrics, List.map_cons, List.sum_cons,
      hsub]
    omega

theorem Observed.Kept.init {zone : Zone} {cfg : CrawlConfig} {crawler : CrawlerConfiguration}
    {s : Observed} (h : (observedSystem zone cfg crawler).init s) : s.Kept := by
  obtain ⟨⟨control, cache, sessions, active, totals⟩, status, reports⟩ := s
  obtain ⟨⟨-, rfl, rfl, rfl⟩, rfl, rfl⟩ := h
  have hactive : ∀ k, (none : Option Nat) = some k ↔
      ∃ e ∈ ([] : List Session), e.stop = k ∧ e.pc.isCrawling = true := by
    intro k
    simp
  exact {
    accounts := ⟨List.nodup_nil, fun e he => (List.not_mem_nil he).elim, hactive, zeroCounters_get⟩
    bounded := fun m => Nat.two_pow_pos 64
    ordered := fun m => .nil
    reported := nofun
    pending := nofun }

/-- In every run in which a manager is only published when none is and fewer than 2^64 events
    are counted, the reports never decrease, any of them that are logged give intervals that
    add up to the last one, and when all sessions have ended a call loads what they counted. -/
theorem metrics_keep_counts {zone : Zone} {cfg : CrawlConfig} {crawler : CrawlerConfiguration}
    {s : Observed}
    (h : ((observedSystem zone cfg crawler).restrict PublishesAlone).Reachable s) (m : Metric) :
    (s.reports.Pairwise fun r r' => r.get m ≤ r'.get m) ∧
    (∀ statuses, List.Sublist statuses s.reports →
      ((logWorkerMetrics zeroCounters statuses).map fun d => (d.get m).toNat).sum =
        (((zeroCounters :: statuses).getLast (by simp)).get m).toNat) ∧
    ((∀ e ∈ s.process.sessions, e.pc = .ended) →
      (s.process.load m).toNat = counted m s.process.sessions) := by
  have hkept : s.Kept := by
    refine System.invariant (P := Observed.Kept) ?_ ?_ h
    · exact fun s hinit => Observed.Kept.init hinit
    · exact fun s a s' _ hs hstep => ObservedStep.kept hstep.1 hstep.2 hs
  refine ⟨hkept.ordered m, fun statuses hsub => ?_, fun hended => ?_⟩
  · have hordered : (zeroCounters :: statuses).Pairwise fun r r' => r.get m ≤ r'.get m := by
      refine List.pairwise_cons.2 ⟨fun r _ => ?_, (hkept.ordered m).sublist hsub⟩
      rw [zeroCounters_get]
      exact UInt64.zero_le
    have hsum := logWorkerMetrics_sum hordered
    rwa [zeroCounters_get] at hsum
  · rw [hkept.load m]
    unfold counted countedBy
    congr 1
    refine List.map_congr_left fun e he => ?_
    rw [hended e he]
    rfl

/-! ## Stop and start -/

/-- A `Status` call that nothing interrupts. -/
theorem status_reports {zone : Zone} {cfg : CrawlConfig} {crawler : CrawlerConfiguration}
    {ok : Observed → ObservedAction → Prop} (hlock : ∀ s, ok s .lock)
    (hload : ∀ s m, ok s (.load m)) {p : Process} {reports : List Counters}
    (h : ((observedSystem zone cfg crawler).restrict ok).Reachable ⟨p, none, reports⟩) :
    ((observedSystem zone cfg crawler).restrict ok).Reachable
      ⟨p, none, reports ++ [⟨p.load .outputDropped, p.load .getPeersRejected,
        p.load .getPeersDeduped, p.load .getPeersSendDropped⟩]⟩ := by
  have hlocked := h.step ⟨ObservedStep.lock rfl, hlock _⟩
  have hdropped := hlocked.step ⟨ObservedStep.loadDropped rfl, hload _ _⟩
  have hrejected := hdropped.step ⟨ObservedStep.loadRejected rfl, hload _ _⟩
  have hdeduped := hrejected.step ⟨ObservedStep.loadDeduped rfl, hload _ _⟩
  exact hdeduped.step ⟨ObservedStep.loadSendDropped rfl, hload _ _⟩

/-- The crawler is started, drops a result and is asked for its status. -/
theorem first_session : ∃ c, ((observedSystem 0 ⟨1, 1, 1, true⟩ plainCrawler).restrict
    PublishesAlone).Reachable ⟨⟨⟨((newCrawlerManager plainCrawler).manualStart 0 0 0).1, 0, []⟩,
      emptyInfoHashCache, [⟨0, .crawling c, ⟨1, 0, 0, 0⟩⟩], some 0, zeroCounters⟩, none,
      [⟨1, 0, 0, 0⟩]⟩ := by
  have hinit : ((observedSystem 0 ⟨1, 1, 1, true⟩ plainCrawler).restrict PublishesAlone).Reachable
      ⟨⟨⟨newCrawlerManager plainCrawler, 0, []⟩, emptyInfoHashCache, [], none, zeroCounters⟩,
        none, []⟩ :=
    .init ⟨⟨⟨rfl, le_rfl, rfl⟩, rfl, rfl, rfl⟩, rfl, rfl⟩
  have hstarted := hinit.step ⟨ObservedStep.process
    (.control (@ControlStep.start 0 _ 0 0 le_rfl le_rfl)) nofun fun _ => rfl, trivial⟩
  have hbinding := hstarted.step ⟨ObservedStep.process
    (@ProcessStep.enter _ _ _ [] [] 0 zeroCounters rfl) nofun fun _ => rfl, trivial⟩
  have hbound := hbinding.step ⟨ObservedStep.process
    (@ProcessStep.bind _ _ _ [] [] 0 zeroCounters rfl) nofun fun _ => rfl, trivial⟩
  have hcrawling := hbound.step ⟨ObservedStep.process
    (@ProcessStep.publish _ _ _ [] [] 0 zeroCounters rfl) nofun fun _ => rfl, rfl⟩
  have hcounted := hcrawling.step ⟨@ObservedStep.count _ _ _ [] [] 0 _ zeroCounters
    ⟨1, 0, 0, 0⟩ rfl rfl, fun m => ?_⟩
  swap
  · change (zeroCounters.get m).toNat + 0 + (Counters.get ⟨1, 0, 0, 0⟩ m).toNat < 2 ^ 64
    cases m <;> decide
  exact ⟨_, status_reports (fun _ => trivial) (fun _ _ => trivial) hcounted⟩

theorem metrics_keep_counts_first : ∃ s, ((observedSystem 0 ⟨1, 1, 1, true⟩ plainCrawler).restrict
    PublishesAlone).Reachable s ∧ s.reports.length = 1 ∧
      (s.reports.Pairwise fun r r' => r.get .outputDropped ≤ r'.get .outputDropped) := by
  obtain ⟨c, hreach⟩ := first_session
  exact ⟨_, hreach, rfl, (metrics_keep_counts hreach .outputDropped).1⟩

/-- The crawler is stopped and started again, and the second manager is published before the
    first session has ended: the report falls from one to zero, and the logged interval is
    the largest unsigned number. -/
theorem metrics_run_backwards : ∃ s, (observedSystem 0 ⟨1, 1, 1, true⟩ plainCrawler).Reachable s ∧
    s.reports = [⟨1, 0, 0, 0⟩, ⟨0, 0, 0, 0⟩] ∧
    (logWorkerMetrics zeroCounters s.reports).map (Counters.get · .outputDropped) =
      [1, 18446744073709551615] := by
  obtain ⟨c, hreach⟩ := first_session
  have hfree : ((observedSystem 0 ⟨1, 1, 1, true⟩ plainCrawler).restrict fun _ _ => True).Reachable
      _ := hreach.restrict_mono fun _ _ _ => trivial
  have hstopped := hfree.step ⟨ObservedStep.process
    (.control (@ControlStep.stop 0 _ 0 le_rfl)) nofun fun _ => rfl, trivial⟩
  have hstarted := hstopped.step ⟨ObservedStep.process
    (.control (@ControlStep.start 0 _ 0 0 le_rfl le_rfl)) nofun fun _ => rfl, trivial⟩
  have hbinding := hstarted.step ⟨ObservedStep.process
    (@ProcessStep.enter _ _ _ [_] [] 1 zeroCounters rfl) nofun fun _ => rfl, trivial⟩
  have hbound := hbinding.step ⟨ObservedStep.process
    (@ProcessStep.bind _ _ _ [_] [] 1 zeroCounters rfl) nofun fun _ => rfl, trivial⟩
  have hcrawling := hbound.step ⟨ObservedStep.process
    (@ProcessStep.publish _ _ _ [_] [] 1 zeroCounters rfl) nofun fun _ => rfl, trivial⟩
  have hreported := status_reports (fun _ => trivial) (fun _ _ => trivial) hcrawling
  exact ⟨_, hreported.of_restrict, rfl, rfl⟩

end Ui
