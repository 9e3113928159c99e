-- SUMMARY: The daily schedule of the crawler: reading clock times, the state of the window at a time and when it changes next.
import LazyDhtc.DhtClient.Types
import LazyDhtc.Lib.Json.Number
import LazyDhtc.Lib.Periodic
import LazyDhtc.Lib.Unicode

/-!
# Schedule

A `time.Time` is its number of nanoseconds since the zero time; a time zone with a fixed
offset is its number of seconds east of UTC. The schedule is a daily window between two clock
times.
-/

namespace Ui

open DhtClient Json Unicode Periodic

/-! ## Times -/

def minutes (n : Int) : Int := seconds (n * 60)

def hours (n : Int) : Int := minutes (n * 60)

/-- A time zone with a fixed offset. -/
abbrev Zone := Int

namespace Zone

variable (zone : Zone)

/-- What the clocks of the zone show, as a number of nanoseconds. -/
def wall (t : Int) : Int := t + seconds zone

/-- `t.Year()`, `t.Month()` and `t.Day()`, as a number of days. -/
def day (t : Int) : Int := zone.wall t / hours 24

/-- `t.Hour()` -/
def hour (t : Int) : Int := zone.wall t % hours 24 / hours 1

/-- `t.Minute()` -/
def minute (t : Int) : Int := zone.wall t % hours 1 / minutes 1

/-- `time.Date` with no seconds -/
def date (day hour minute : Int) : Int :=
  hours (24 * day) + hours hour + minutes minute - seconds zone

end Zone

/-- `t.AddDate(0, 0, 1)`, in a zone with a fixed offset. -/
def addDay (t : Int) : Int := t + hours 24

/-- `getnum` of the package `time`: a number of two digits, or of one unless `fixed`. -/
def getnum : Bytes → Bool → Option (Nat × Bytes)
  | a :: b :: rest, fixed =>
    match digitValue a, digitValue b with
    | some tens, some units => some (tens * 10 + units, rest)
    | some units, none => if fixed then none else some (units, b :: rest)
    | none, _ => none
  | [a], fixed => if fixed then none else (digitValue a).map fun units => (units, [])
  | [], _ => none

/-- `time.Parse("15:04", value)`, the hour and the minute. -/
def parseClock (value : Bytes) : Option (Nat × Nat) :=
  match getnum value false with
  | some (hour, 0x3A :: rest) =>
    match getnum rest true with
    | some (minute, []) => if hour < 24 ∧ minute < 60 then some (hour, minute) else none
    | _ => none
  | _ => none

/-! ## The window -/

def parseClockMinutes (value : Bytes) : Option Int :=
  (parseClock (trimSpace value)).map fun parsed => parsed.1 * 60 + parsed.2

def scheduleState (zone : Zone) (now : Int) (startText endText : Bytes) : Bool × Int :=
  match parseClockMinutes startText, parseClockMinutes endText with
  | some startMinute, some endMinute =>
    if startMinute = endMinute then (false, 0)
    else
      let minute := zone.hour now * 60 + zone.minute now
      let inside : Bool :=
        if startMinute < endMinute then startMinute ≤ minute && minute < endMinute
        else startMinute ≤ minute || minute < endMinute
      let nextMinute := if inside then endMinute else startMinute
      let next := zone.date (zone.day now) (nextMinute / 60) (nextMinute % 60)
      (inside, if now < next then next else addDay next)
  | _, _ => (false, 0)

/-! ## What it computes -/

theorem parseClockMinutes_bounds {value : Bytes} {m : Int} (h : parseClockMinutes value = some m) :
    0 ≤ m ∧ m < 24 * 60 := by
  obtain ⟨⟨hour, minute⟩, hparse, rfl⟩ := Option.map_eq_some_iff.1 h
  unfold parseClock at hparse
  split at hparse
  · split at hparse
    · split_ifs at hparse with hrange
      cases hparse
      dsimp only
      omega
    · cases hparse
  · cases hparse

/-- A valid window: two different clock times. -/
structure DailyWindow (startText endText : Bytes) where
  startMinute : Int
  endMinute : Int
  start_eq : parseClockMinutes startText = some startMinute
  end_eq : parseClockMinutes endText = some endMinute
  distinct : startMinute ≠ endMinute

namespace DailyWindow

variable {startText endText : Bytes} (d : DailyWindow startText endText) (zone : Zone)

/-- The times at which the schedule wants the crawler to run. -/
def window : Window where
  period := hours 24
  start := minutes d.startMinute - seconds zone
  stop := minutes d.endMinute - seconds zone
  pos := by decide
  distinct := by
    intro h
    have hstart := parseClockMinutes_bounds d.start_eq
    have hend := parseClockMinutes_bounds d.end_eq
    have hdistinct := d.distinct
    have hdvd := Int.modEq_iff_dvd.1 h
    unfold hours minutes seconds at hdvd
    omega

end DailyWindow

theorem minute_of_day (zone : Zone) (t : Int) :
    zone.hour t * 60 + zone.minute t = zone.wall t % hours 24 / minutes 1 := by
  unfold Zone.hour Zone.minute hours minutes seconds
  omega

theorem hours_day : hours 24 = 86400000000000 := rfl

theorem minutes_eq (n : Int) : minutes n = 60000000000 * n := by
  unfold minutes seconds
  omega

namespace DailyWindow

variable {startText endText : Bytes} (d : DailyWindow startText endText) (zone : Zone)

/-- What the window says about the time of the day. -/
theorem elapsed_eq (t : Int) : (d.window zone).elapsed t =
    if minutes d.startMinute ≤ zone.wall t % hours 24 then
      zone.wall t % hours 24 - minutes d.startMinute
    else zone.wall t % hours 24 - minutes d.startMinute + hours 24 := by
  have hstart := parseClockMinutes_bounds d.start_eq
  unfold Window.elapsed window Zone.wall
  simp only [hours_day, minutes_eq]
  split <;> omega

theorem length_eq : (d.window zone).length =
    if d.startMinute < d.endMinute then minutes d.endMinute - minutes d.startMinute
    else minutes d.endMinute - minutes d.startMinute + hours 24 := by
  have hstart := parseClockMinutes_bounds d.start_eq
  have hend := parseClockMinutes_bounds d.end_eq
  have hdistinct := d.distinct
  unfold Window.length Window.elapsed window
  simp only [hours_day, minutes_eq]
  split <;> omega

end DailyWindow

/-- The given minute of the day of `t`. -/
theorem date_day (zone : Zone) (t : Int) (n : Int) :
    zone.date (zone.day t) (n / 60) (n % 60) = t - zone.wall t % hours 24 + minutes n := by
  unfold Zone.date Zone.day Zone.wall hours minutes seconds
  omega

/-- `inside` says whether the window is open, and `next` is its next boundary. -/
theorem scheduleState_eq (zone : Zone) (now : Int) {startText endText : Bytes}
    (d : DailyWindow startText endText) :
    scheduleState zone now startText endText =
      (decide ((d.window zone).Open now), (d.window zone).next now) := by
  have hstart := parseClockMinutes_bounds d.start_eq
  have hend := parseClockMinutes_bounds d.end_eq
  have hdistinct := d.distinct
  have helapsed := d.elapsed_eq zone now
  have hlength := d.length_eq zone
  have hinside : (if d.startMinute < d.endMinute then
        decide (d.startMinute ≤ zone.wall now % hours 24 / minutes 1) &&
          decide (zone.wall now % hours 24 / minutes 1 < d.endMinute)
      else decide (d.startMinute ≤ zone.wall now % hours 24 / minutes 1) ||
          decide (zone.wall now % hours 24 / minutes 1 < d.endMinute)) =
      decide ((d.window zone).Open now) := by
    rw [Bool.eq_iff_iff, decide_eq_true_iff, Window.Open, helapsed, hlength]
    simp only [hours_day, minutes_eq]
    split
    · simp only [Bool.and_eq_true, decide_eq_true_eq]
      split <;> omega
    · simp only [Bool.or_eq_true, decide_eq_true_eq]
      split <;> omega
  have hnext : ∀ n : Int, (if now < zone.date (zone.day now) (n / 60) (n % 60) then
        zone.date (zone.day now) (n / 60) (n % 60)
      else addDay (zone.date (zone.day now) (n / 60) (n % 60))) =
      if zone.wall now % hours 24 < minutes n then now - zone.wall now % hours 24 + minutes n
      else now - zone.wall now % hours 24 + minutes n + hours 24 := by
    intro n
    rw [date_day, addDay]
    split <;> split <;> omega
  simp only [scheduleState, d.start_eq, d.end_eq, if_neg hdistinct, minute_of_day, hinside, hnext,
    decide_eq_true_eq]
  congr 1
  have hopen : (d.window zone).Open now ↔ (d.window zone).elapsed now < (d.window zone).length :=
    Iff.rfl
  have hperiod : (d.window zone).period = hours 24 := rfl
  simp only [Window.next, hopen, hperiod, helapsed, hlength, hours_day, minutes_eq]
  split <;> split <;> split <;> omega

/-! ## The state at a time -/

/-- The minute lies in the circular interval from `start` up to `stop`: fewer minutes have
    passed since `start` than pass from there to `stop`. -/
def InCircle (start stop minute : Int) : Prop :=
  (minute - start) % (24 * 60) < (stop - start) % (24 * 60)

theorem minute_bounds (zone : Zone) (t : Int) :
    0 ≤ zone.hour t * 60 + zone.minute t ∧ zone.hour t * 60 + zone.minute t < 24 * 60 := by
  rw [minute_of_day, hours_day, minutes_eq]
  omega

theorem scheduleState_inside (zone : Zone) (now : Int) {startText endText : Bytes}
    (d : DailyWindow startText endText) :
    (scheduleState zone now startText endText).1 = true ↔
      InCircle d.startMinute d.endMinute (zone.hour now * 60 + zone.minute now) := by
  have hstart := parseClockMinutes_bounds d.start_eq
  have hend := parseClockMinutes_bounds d.end_eq
  have hminute := minute_bounds zone now
  simp only [scheduleState, d.start_eq, d.end_eq, if_neg d.distinct, InCircle]
  generalize zone.hour now * 60 + zone.minute now = minute at *
  split
  · simp only [Bool.and_eq_true, decide_eq_true_eq]
    omega
  · simp only [Bool.or_eq_true, decide_eq_true_eq]
    have hdistinct := d.distinct
    omega

/-- `inside` says whether the minute of the day lies in the window, and `next` is the first
    time at which that changes, at most a day away. -/
theorem scheduleState_window {zone : Zone} {now start stop : Int} {startText endText : Bytes}
    (hstart : parseClockMinutes startText = some start)
    (hstop : parseClockMinutes endText = some stop) (hne : start ≠ stop) :
    ((scheduleState zone now startText endText).1 = true ↔
      InCircle start stop (zone.hour now * 60 + zone.minute now)) ∧
    now < (scheduleState zone now startText endText).2 ∧
    (scheduleState zone now startText endText).2 ≤ now + hours 24 ∧
    (scheduleState zone (scheduleState zone now startText endText).2 startText endText).1 =
      !(scheduleState zone now startText endText).1 ∧
    ∀ t, now ≤ t → t < (scheduleState zone now startText endText).2 →
      (scheduleState zone t startText endText).1 =
        (scheduleState zone now startText endText).1 := by
  let d : DailyWindow startText endText := ⟨start, stop, hstart, hstop, hne⟩
  refine ⟨scheduleState_inside zone now d, ?_⟩
  simp only [scheduleState_eq zone _ d]
  refine ⟨(d.window zone).lt_next now, (d.window zone).next_le now, ?_, fun t hnow ht => ?_⟩
  · rw [← decide_not]
    exact decide_eq_decide.2 ((d.window zone).open_next now)
  · exact decide_eq_decide.2 ((d.window zone).open_before hnow ht)

/-- At half past ten in the evening, for a window that is open at night. -/
theorem scheduleState_window_night :
    (scheduleState 0 (hours 22 + minutes 30) (ascii "22:00") (ascii "07:00")).1 = true ∧
      (scheduleState 0 (hours 22 + minutes 30) (ascii "22:00") (ascii "07:00")).2 ≤
        hours 22 + minutes 30 + hours 24 := by
  have hstart : parseClockMinutes (ascii "22:00") = some 1320 := by decide +kernel
  have hstop : parseClockMinutes (ascii "07:00") = some 420 := by decide +kernel
  obtain ⟨hinside, -, hle, -⟩ :=
    @scheduleState_window 0 (hours 22 + minutes 30) _ _ _ _ hstart hstop (by decide)
  refine ⟨hinside.2 ?_, hle⟩
  unfold InCircle
  decide

end Ui
