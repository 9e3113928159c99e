-- SUMMARY: The discovery statistics of the two repositories: both return the same entries, and each torrent of the covered range is counted in one of them.
import LazyDhtc.Db.Torrent
import LazyDhtc.Lib.Grouping

/-!
# Statistics

`GetStatsByInterval` counts the torrents by the interval in which they were discovered.
Clover counts in a loop over the documents, GORM leaves it to a query. Times are
nanoseconds of the Unix epoch.
-/

namespace Db

open Grouping

/-! ## Times -/

def second : Int64 := 1000000000

def getIntervalDuration (interval : Bytes) : Int64 :=
  if interval = ascii "minute" then 60 * second
  else if interval = ascii "hour" then 3600 * second
  else if interval = ascii "day" then 24 * (3600 * second)
  else 3600 * second

/-- The time from the zero time, the start of the year 1, to the Unix epoch. -/
def sinceZeroTime : Int := 719162 * (86400 * 1000000000)

/-- `t.Truncate(d)`: down to a multiple of `d` since the zero time. -/
def truncate (d : Int64) (t : Int) : Int := t - (t + sinceZeroTime) % d.toInt

/-- `t.Unix()` -/
def unixSeconds (t : Int) : Int := t / 1000000000

/-- `now.Add(-time.Duration(i) * duration)` -/
def intervalsBefore (now : Int) (i duration : Int64) : Int := now + (-i * duration).toInt

/-! ## Counts -/

structure Stats where
  timestamp : Int
  torrentCount : Nat
  ipv4Count : Nat
  ipv6Count : Nat
  unknownCount : Nat
deriving DecidableEq

/-- The zero value. -/
def Stats.zero : Stats := ⟨-sinceZeroTime, 0, 0, 0, 0⟩

/-- What the statistics read of a document or a row. One that was stored before there were
    families has none. -/
structure StatsRow where
  discoveredOn : Int64
  family : Option Int64

def Torrent.statsRow (t : Torrent) : StatsRow := ⟨t.discoveredOn, some t.family⟩

/-- `numericInt` of the field of a document. -/
def numericInt : Option Int64 → Int64
  | some v => v
  | none => 0

/-- `(discoveredOn / seconds) * seconds`, in Go and in the dialects of SQL. -/
def bucketOf (seconds : Int64) (row : StatsRow) : Int :=
  (row.discoveredOn / seconds * seconds).toInt

/-! ## Clover -/

/-- A round of the loop, between the two accesses to the map. -/
def Stats.add (stats : Stats) (doc : StatsRow) : Stats :=
  let stats := { stats with torrentCount := stats.torrentCount + 1 }
  if numericInt doc.family = 4 then { stats with ipv4Count := stats.ipv4Count + 1 }
  else if numericInt doc.family = 6 then { stats with ipv6Count := stats.ipv6Count + 1 }
  else { stats with unknownCount := stats.unknownCount + 1 }

/-- `CloverRepository.GetStatsByInterval` at some time. Without a value, `make` panics. -/
def cloverStats (documents : List StatsRow) (time : Int) (interval : Bytes) (limit : Int64) :
    Option (List Stats) :=
  let duration := getIntervalDuration interval
  let now := truncate duration time
  let since := unixSeconds (intervalsBefore now limit duration)
  let docs := documents.filter fun doc => since ≤ doc.discoveredOn.toInt
  -- `duration.Seconds()` is a float, and exact for the durations there are.
  let seconds := duration / second
  let bucketMap := tally (bucketOf seconds) Stats.add Stats.zero docs
  if limit < 0 then none
  else some <| (List.range limit.toInt.toNat).map fun i =>
    let ts := intervalsBefore now (.ofNat i) duration
    { (bucketMap.lookup (unixSeconds ts)).getD Stats.zero with timestamp := ts }

/-! ## GORM -/

/-- `Result` -/
structure BucketResult where
  bucket : Int
  count : Nat
  ipv4Count : Nat
  ipv6Count : Nat
  unknownCount : Nat

def BucketResult.zero : BucketResult := ⟨0, 0, 0, 0, 0⟩

/-- `family not in (4, 6) or family is null` -/
def unknownFamily : Option Int64 → Bool
  | none => true
  | some family => family ≠ 4 && family ≠ 6

/-- What the query selects for a bucket. A family that is null equals nothing. -/
def selectBucket (bucket : Int) (rows : List StatsRow) : BucketResult where
  bucket := bucket
  count := rows.length
  ipv4Count := rows.countP fun row => row.family = some 4
  ipv6Count := rows.countP fun row => row.family = some 6
  unknownCount := rows.countP fun row => unknownFamily row.family

/-- The order in which the engine returns the results. -/
structure ResultOrder where
  order : List BucketResult → List BucketResult
  perm : ∀ results, (order results).Perm results

/-- `GormRepository.GetStatsByInterval` at some time. Without a value, `make` panics. -/
def gormStats (engine : ResultOrder) (rows : List StatsRow) (time : Int) (interval : Bytes)
    (limit : Int64) : Option (List Stats) :=
  let duration := getIntervalDuration interval
  let seconds := duration / second
  let now := truncate duration time
  let since := unixSeconds (intervalsBefore now limit duration)
  let results := engine.order <| groups (bucketOf seconds) selectBucket <|
    rows.filter fun row => since ≤ row.discoveredOn.toInt
  let bucketMap := index BucketResult.bucket results
  if limit < 0 then none
  else some <| (List.range limit.toInt.toNat).map fun i =>
    let ts := intervalsBefore now (.ofNat i) duration
    let bucket := (bucketMap.lookup (unixSeconds ts)).getD .zero
    ⟨ts, bucket.count, bucket.ipv4Count, bucket.ipv6Count, bucket.unknownCount⟩

/-! ## Intervals -/

/-- A duration of `s` seconds, of which a day is a multiple. -/
structure DividesDay (duration : Int64) (s : Int) : Prop where
  pos : 0 < s
  dvd : s ∣ 86400
  nanoseconds : duration.toInt = s * 1000000000
  seconds : (duration / second).toInt = s

theorem exists_dividesDay (interval : Bytes) :
    ∃ s, DividesDay (getIntervalDuration interval) s := by
  have hhour : DividesDay (3600 * second) 3600 := ⟨by decide, by decide, by decide, by decide⟩
  unfold getIntervalDuration
  split
  · exact ⟨60, by decide, by decide, by decide, by decide⟩
  split
  · exact ⟨3600, hhour⟩
  split
  · exact ⟨86400, by decide, by decide, by decide, by decide⟩
  · exact ⟨3600, hhour⟩

variable {duration : Int64} {s : Int}

/-- Times that are truncated since the zero time are so since the Unix epoch. -/
theorem DividesDay.truncate (h : DividesDay duration s) (t : Int) :
    ∃ q, truncate duration t = q * s * 1000000000 := by
  have hzero : duration.toInt ∣ sinceZeroTime := by
    rw [h.nanoseconds]
    exact Dvd.dvd.mul_left (Int.mul_dvd_mul_right _ h.dvd) _
  have hdvd : duration.toInt ∣ (t + sinceZeroTime - (t + sinceZeroTime) % duration.toInt) -
      sinceZeroTime := Int.dvd_sub Int.dvd_self_sub_emod hzero
  obtain ⟨q, hq⟩ := hdvd
  refine ⟨q, ?_⟩
  calc Db.truncate duration t
    _ = t + sinceZeroTime - (t + sinceZeroTime) % duration.toInt - sinceZeroTime := by
      rw [Db.truncate]
      omega
    _ = q * s * 1000000000 := by
      rw [hq, h.nanoseconds, Int.mul_comm, ← Int.mul_assoc]

theorem intervalsBefore_eq (now : Int) {i : Int64} (hi : 0 ≤ i.toInt)
    (hduration : 0 ≤ duration.toInt) (hover : i.toInt * duration.toInt < 2 ^ 63) :
    intervalsBefore now i duration = now - i.toInt * duration.toInt := by
  have hnonneg := Int.mul_nonneg hi hduration
  rw [intervalsBefore, Int64.toInt_mul, Int64.toInt_neg, Int.bmod_mul_bmod, Int.neg_mul,
    Int.bmod_eq_of_le (by omega) (by omega), Int.sub_eq_add_neg]

theorem unixSeconds_mul (x : Int) : unixSeconds (x * 1000000000) = x :=
  Int.mul_ediv_cancel _ (by decide)

/-- Neither of the two operations on the seconds overflows. -/
theorem DividesDay.bucketOf (h : DividesDay duration s) {row : StatsRow}
    (hrow : 0 ≤ row.discoveredOn.toInt) :
    bucketOf (duration / second) row = row.discoveredOn.toInt.tdiv s * s := by
  have hne : duration / second ≠ -1 := by
    intro heq
    have hpos := h.pos
    rw [← h.seconds, heq] at hpos
    exact absurd hpos (by decide)
  have hle : row.discoveredOn.toInt.tdiv s * s ≤ row.discoveredOn.toInt := by
    rw [Int.tdiv_eq_ediv_of_nonneg hrow]
    exact Int.ediv_mul_le _ (Int.ne_of_gt h.pos)
  have hnonneg : 0 ≤ row.discoveredOn.toInt.tdiv s * s :=
    Int.mul_nonneg (Int.tdiv_nonneg hrow (Int.le_of_lt h.pos)) (Int.le_of_lt h.pos)
  have hlt := row.discoveredOn.toInt_lt
  rw [Db.bucketOf, Int64.toInt_mul, Int64.toInt_div_of_ne_right _ _ hne, h.seconds,
    Int.bmod_eq_of_le (by omega) (by omega)]

/-! ## Entries -/

/-- The torrent was discovered in the interval that begins at `ts`. -/
def StatsRow.discoveredIn (row : StatsRow) (ts duration : Int) : Bool :=
  ts ≤ row.discoveredOn.toInt * 1000000000 && row.discoveredOn.toInt * 1000000000 < ts + duration

theorem discoveredIn_iff {row : StatsRow} {ts duration : Int} :
    row.discoveredIn ts duration = true ↔ ts ≤ row.discoveredOn.toInt * 1000000000 ∧
      row.discoveredOn.toInt * 1000000000 < ts + duration := by
  simp [StatsRow.discoveredIn]

/-- The entry for the interval that begins at `ts`. -/
def intervalStats (rows : List StatsRow) (ts duration : Int) : Stats where
  timestamp := ts
  torrentCount := rows.countP fun row => row.discoveredIn ts duration
  ipv4Count := rows.countP fun row => row.family = some 4 && row.discoveredIn ts duration
  ipv6Count := rows.countP fun row => row.family = some 6 && row.discoveredIn ts duration
  unknownCount := rows.countP fun row =>
    unknownFamily row.family && row.discoveredIn ts duration

/-- The entry, from the torrents of its interval. -/
theorem intervalStats_eq (rows : List StatsRow) (ts duration : Int) :
    intervalStats rows ts duration =
      let discovered := rows.filter fun row => row.discoveredIn ts duration
      ⟨ts, discovered.length, discovered.countP fun row => row.family = some 4,
        discovered.countP fun row => row.family = some 6,
        discovered.countP fun row => unknownFamily row.family⟩ := by
  simp only [List.countP_filter, ← List.countP_eq_length_filter]
  rfl

theorem numericInt_eq_iff {family : Option Int64} {v : Int64} (hv : v ≠ 0) :
    numericInt family = v ↔ family = some v := by
  cases family with
  | none => exact iff_of_false (fun h => hv h.symm) nofun
  | some w => exact Option.some_inj.symm

theorem unknownFamily_iff {family : Option Int64} :
    unknownFamily family = true ↔ family ≠ some 4 ∧ family ≠ some 6 := by
  cases family with
  | none => simp [unknownFamily]
  | some v => simp [unknownFamily]

/-- A round of the loop counts the family as the query does. -/
theorem Stats.add_eq (stats : Stats) (doc : StatsRow) :
    stats.add doc =
      ⟨stats.timestamp, stats.torrentCount + 1,
        stats.ipv4Count + if doc.family = some 4 then 1 else 0,
        stats.ipv6Count + if doc.family = some 6 then 1 else 0,
        stats.unknownCount + if unknownFamily doc.family then 1 else 0⟩ := by
  have h4 : numericInt doc.family = 4 ↔ doc.family = some 4 := numericInt_eq_iff (by decide)
  have h6 : numericInt doc.family = 6 ↔ doc.family = some 6 := numericInt_eq_iff (by decide)
  simp only [Stats.add, h4, h6, unknownFamily_iff]
  by_cases hv4 : doc.family = some 4
  · simp [hv4]
  · by_cases hv6 : doc.family = some 6 <;> simp [hv4, hv6]

/-- What the loop has counted. -/
theorem foldl_add (docs : List StatsRow) (stats : Stats) :
    docs.foldl Stats.add stats =
      ⟨stats.timestamp, stats.torrentCount + docs.length,
        stats.ipv4Count + docs.countP fun row => row.family = some 4,
        stats.ipv6Count + docs.countP fun row => row.family = some 6,
        stats.unknownCount + docs.countP fun row => unknownFamily row.family⟩ := by
  induction docs generalizing stats with
  | nil => rfl
  | cons doc docs ih =>
    rw [List.foldl_cons, ih, Stats.add_eq]
    simp only [List.length_cons, List.countP_cons, decide_eq_true_eq, Stats.mk.injEq, true_and]
    exact ⟨by omega, by omega, by omega, by omega⟩

/-- Each torrent has one of the three kinds of family. -/
theorem length_eq_families (rows : List StatsRow) :
    rows.length = rows.countP (fun row => row.family = some 4) +
      rows.countP (fun row => row.family = some 6) +
      rows.countP (fun row => unknownFamily row.family) := by
  induction rows with
  | nil => rfl
  | cons row rows ih =>
    have hone : (if row.family = some 4 then 1 else 0) + (if row.family = some 6 then 1 else 0) +
        (if unknownFamily row.family then 1 else 0) = 1 := by
      simp only [unknownFamily_iff]
      by_cases hv4 : row.family = some 4
      · simp [hv4]
      · by_cases hv6 : row.family = some 6 <;> simp [hv4, hv6]
    simp only [List.length_cons, List.countP_cons, decide_eq_true_eq]
    omega

/-- The rows that the repositories count for the interval that begins at `b` seconds. -/
theorem DividesDay.filter_bucketOf (h : DividesDay duration s) {rows : List StatsRow}
    (hrows : ∀ row ∈ rows, 0 ≤ row.discoveredOn.toInt) {b since : Int} (hb : s ∣ b)
    (hsince : since ≤ b) :
    ((rows.filter fun row => since ≤ row.discoveredOn.toInt).filter
        fun row => Db.bucketOf (duration / second) row = b) =
      rows.filter fun row => row.discoveredIn (b * 1000000000) duration.toInt := by
  rw [List.filter_filter]
  refine List.filter_congr fun row hrow => ?_
  rw [h.bucketOf (hrows row hrow), Bool.eq_iff_iff, Bool.and_eq_true, decide_eq_true_eq,
    decide_eq_true_eq, tdiv_mul_eq_iff h.pos hb (hrows row hrow)]
  rw [discoveredIn_iff, h.nanoseconds]
  omega

section Entries

variable {rows : List StatsRow} {time : Int} {interval : Bytes} {limit : Int64}

/-- The time of entry `i`. -/
def entryTime (time : Int) (interval : Bytes) (i : Nat) : Int :=
  truncate (getIntervalDuration interval) time - i * (getIntervalDuration interval).toInt

theorem intervalsBefore_ofNat (time : Int) (hlimit : 0 ≤ limit.toInt)
    (hover : limit.toInt * (getIntervalDuration interval).toInt < 2 ^ 63) {i : Nat}
    (hi : i ≤ limit.toInt.toNat) :
    intervalsBefore (truncate (getIntervalDuration interval) time) (.ofNat i)
      (getIntervalDuration interval) = entryTime time interval i := by
  obtain ⟨s, hday⟩ := exists_dividesDay interval
  have hlt := limit.toInt_lt
  have hnat : (Int64.ofNat i).toInt = i := Int64.toInt_ofNat_of_lt (by omega)
  have hpos := hday.pos
  have hduration : 0 ≤ (getIntervalDuration interval).toInt := by
    rw [hday.nanoseconds]
    omega
  have hmul : (i : Int) * (getIntervalDuration interval).toInt ≤
      limit.toInt * (getIntervalDuration interval).toInt :=
    Int.mul_le_mul_of_nonneg_right (by omega) hduration
  rw [intervalsBefore_eq _ (by omega) hduration (by rw [hnat]; omega), hnat, entryTime]

/-- What is left of the rows that are fetched, in the bucket of an entry. -/
theorem filter_entry (time : Int) (hlimit : 0 ≤ limit.toInt)
    (hover : limit.toInt * (getIntervalDuration interval).toInt < 2 ^ 63)
    (hrows : ∀ row ∈ rows, 0 ≤ row.discoveredOn.toInt) {i : Nat} (hi : i ≤ limit.toInt.toNat) :
    ((rows.filter fun row =>
        unixSeconds (intervalsBefore (truncate (getIntervalDuration interval) time) limit
          (getIntervalDuration interval)) ≤ row.discoveredOn.toInt).filter
        fun row => bucketOf (getIntervalDuration interval / second) row =
          unixSeconds (entryTime time interval i)) =
      rows.filter fun row =>
        row.discoveredIn (entryTime time interval i) (getIntervalDuration interval).toInt := by
  obtain ⟨s, hday⟩ := exists_dividesDay interval
  obtain ⟨q, hq⟩ := hday.truncate time
  have hentry : ∀ k : Nat, entryTime time interval k = (q * s - k * s) * 1000000000 := by
    intro k
    rw [entryTime, hq, hday.nanoseconds, Int.sub_mul, Int.mul_assoc k]
  have hlast : limit = .ofNat limit.toInt.toNat := by
    have hlt := limit.toInt_lt
    rw [← Int64.toInt_inj, Int64.toInt_ofNat_of_lt (by omega)]
    omega
  have hsince : unixSeconds (intervalsBefore (truncate (getIntervalDuration interval) time) limit
      (getIntervalDuration interval)) = q * s - limit.toInt.toNat * s := by
    have hbefore := intervalsBefore_ofNat time hlimit hover (Nat.le_refl _)
    rw [← hlast] at hbefore
    rw [hbefore, hentry, unixSeconds_mul]
  have hle : (i : Int) * s ≤ limit.toInt.toNat * s :=
    Int.mul_le_mul_of_nonneg_right (by omega) (Int.le_of_lt hday.pos)
  rw [hentry, unixSeconds_mul, hsince]
  exact hday.filter_bucketOf hrows
    (Int.dvd_sub (Int.dvd_mul_left _ _) (Int.dvd_mul_left _ _)) (by omega)

/-- What both repositories return. -/
def statsEntries (rows : List StatsRow) (time : Int) (interval : Bytes) (limit : Int64) :
    List Stats :=
  (List.range limit.toInt.toNat).map fun i =>
    intervalStats rows (entryTime time interval i) (getIntervalDuration interval).toInt

theorem getElem?_statsEntries {i : Nat} {e : Stats} :
    (statsEntries rows time interval limit)[i]? = some e ↔ i < limit.toInt.toNat ∧
      intervalStats rows (entryTime time interval i) (getIntervalDuration interval).toInt = e := by
  rw [statsEntries, List.getElem?_map, Option.map_eq_some_iff]
  simp [List.getElem?_eq_some_iff]

theorem limit_not_neg (hlimit : 0 ≤ limit.toInt) : ¬ limit < 0 := fun h =>
  Int.not_lt.2 hlimit (Int64.lt_iff_toInt_lt.1 h)

theorem cloverStats_eq (hlimit : 0 ≤ limit.toInt)
    (hover : limit.toInt * (getIntervalDuration interval).toInt < 2 ^ 63)
    (hrows : ∀ row ∈ rows, 0 ≤ row.discoveredOn.toInt) :
    cloverStats rows time interval limit = some (statsEntries rows time interval limit) := by
  unfold cloverStats
  dsimp only
  rw [if_neg (limit_not_neg hlimit)]
  refine congrArg some (List.map_congr_left fun i hi => ?_)
  have hi : i ≤ limit.toInt.toNat := Nat.le_of_lt (List.mem_range.1 hi)
  have hfilter := filter_entry time hlimit hover hrows hi
  rw [intervalsBefore_ofNat time hlimit hover hi, getD_lookup_tally, hfilter, foldl_add]
  simp only [intervalStats_eq, Stats.zero, Nat.zero_add]

theorem gormStats_eq (engine : ResultOrder) (hlimit : 0 ≤ limit.toInt)
    (hover : limit.toInt * (getIntervalDuration interval).toInt < 2 ^ 63)
    (hrows : ∀ row ∈ rows, 0 ≤ row.discoveredOn.toInt) :
    gormStats engine rows time interval limit = some (statsEntries rows time interval limit) := by
  unfold gormStats
  dsimp only
  rw [if_neg (limit_not_neg hlimit)]
  refine congrArg some (List.map_congr_left fun i hi => ?_)
  have hi : i ≤ limit.toInt.toNat := Nat.le_of_lt (List.mem_range.1 hi)
  have hfilter := filter_entry time hlimit hover hrows hi
  rw [intervalsBefore_ofNat time hlimit hover hi,
    lookup_index_groups (fun _ _ => rfl) (engine.perm _), hfilter, intervalStats_eq]
  split
  · rfl
  · next hkey =>
    -- Nothing was discovered in an interval without a result.
    have hnone : rows.filter (fun row => row.discoveredIn (entryTime time interval i)
        (getIntervalDuration interval).toInt) = [] := by
      rw [← hfilter, List.filter_eq_nil_iff]
      intro row hrow heq
      exact hkey (List.mem_map.2 ⟨row, hrow, by simpa using heq⟩)
    rw [hnone]
    rfl

end Entries

/-- Entry `i` is about the interval that begins `i` intervals before the truncated time, and
    each torrent of the covered range is counted in one entry. -/
structure Bucketed (rows : List StatsRow) (time : Int) (interval : Bytes) (limit : Int64)
    (entries : List Stats) : Prop where
  length : entries.length = limit.toInt.toNat
  timestamp : ∀ (i : Nat) (e : Stats), entries[i]? = some e → e.timestamp =
    truncate (getIntervalDuration interval) time - i * (getIntervalDuration interval).toInt
  torrentCount : ∀ e ∈ entries, e.torrentCount = rows.countP fun row =>
    row.discoveredIn e.timestamp (getIntervalDuration interval).toInt
  ipv4Count : ∀ e ∈ entries, e.ipv4Count = rows.countP fun row => row.family = some 4 &&
    row.discoveredIn e.timestamp (getIntervalDuration interval).toInt
  ipv6Count : ∀ e ∈ entries, e.ipv6Count = rows.countP fun row => row.family = some 6 &&
    row.discoveredIn e.timestamp (getIntervalDuration interval).toInt
  families : ∀ e ∈ entries, e.torrentCount = e.ipv4Count + e.ipv6Count + e.unknownCount
  once : ∀ row ∈ rows,
    truncate (getIntervalDuration interval) time -
        (limit.toInt - 1) * (getIntervalDuration interval).toInt ≤
      row.discoveredOn.toInt * 1000000000 →
    row.discoveredOn.toInt * 1000000000 <
      truncate (getIntervalDuration interval) time + (getIntervalDuration interval).toInt →
    ∃! i : Nat, ∃ e : Stats, entries[i]? = some e ∧
      row.discoveredIn e.timestamp (getIntervalDuration interval).toInt = true

theorem bucketed_statsEntries (rows : List StatsRow) (time : Int) (interval : Bytes) {limit : Int64}
    (hlimit : 0 ≤ limit.toInt) :
    Bucketed rows time interval limit (statsEntries rows time interval limit) := by
  obtain ⟨s, hday⟩ := exists_dividesDay interval
  constructor
  case length => simp [statsEntries]
  case timestamp =>
    intro i e he
    rw [← (getElem?_statsEntries.1 he).2]
    rfl
  case torrentCount =>
    intro e he
    obtain ⟨i, -, rfl⟩ := List.mem_map.1 he
    rfl
  case ipv4Count =>
    intro e he
    obtain ⟨i, -, rfl⟩ := List.mem_map.1 he
    rfl
  case ipv6Count =>
    intro e he
    obtain ⟨i, -, rfl⟩ := List.mem_map.1 he
    rfl
  case families =>
    intro e he
    obtain ⟨i, -, rfl⟩ := List.mem_map.1 he
    rw [intervalStats_eq]
    exact length_eq_families _
  case once =>
    intro row _ hlo hhi
    have hpos : 0 < (getIntervalDuration interval).toInt := by
      rw [hday.nanoseconds]
      exact Int.mul_pos hday.pos (by decide)
    have hlimit : (limit.toInt.toNat : Int) = limit.toInt := Int.toNat_of_nonneg hlimit
    rw [Int.sub_mul, Int.one_mul, ← hlimit] at hlo
    obtain ⟨i, ⟨hi, hin⟩, hunique⟩ :=
      existsUnique_window (n := limit.toInt.toNat) hpos (by omega) hhi
    refine ⟨i, ⟨_, getElem?_statsEntries.2 ⟨hi, rfl⟩, discoveredIn_iff.2 hin⟩, ?_⟩
    rintro k ⟨e, he, hin'⟩
    obtain ⟨hk, rfl⟩ := getElem?_statsEntries.1 he
    exact hunique k ⟨hk, discoveredIn_iff.1 hin'⟩

/-- Both repositories return the same entries, which count each torrent of the covered range
    once. -/
theorem stats_bucketed {rows : List StatsRow} (engine : ResultOrder) (time : Int)
    (interval : Bytes) {limit : Int64} (hlimit : 0 ≤ limit.toInt)
    (hover : limit.toInt * (getIntervalDuration interval).toInt < 2 ^ 63)
    (hrows : ∀ row ∈ rows, 0 ≤ row.discoveredOn.toInt) :
    ∃ entries, cloverStats rows time interval limit = some entries ∧
      gormStats engine rows time interval limit = some entries ∧
      Bucketed rows time interval limit entries := by
  refine ⟨_, cloverStats_eq hlimit hover hrows, gormStats_eq engine hlimit hover hrows,
    bucketed_statsEntries rows time interval hlimit⟩

/-- A torrent of some time and family. -/
def torrentOf (discoveredOn family : Int64) : Torrent :=
  ⟨1, ascii "iso", ascii "00", [], discoveredOn, 1, [], family⟩

/-- Three torrents of the last two hours, one of which has no family, and one from before. -/
def fourRows : List StatsRow :=
  [(torrentOf 7200 4).statsRow, (torrentOf 7199 6).statsRow, ⟨3600, none⟩,
    (torrentOf 3599 4).statsRow]

theorem stats_bucketed_four : ∃ entries,
    cloverStats fourRows (8000 * 1000000000) (ascii "hour") 2 = some entries ∧
    gormStats ⟨List.reverse, List.reverse_perm⟩ fourRows (8000 * 1000000000) (ascii "hour") 2 =
      some entries ∧
    Bucketed fourRows (8000 * 1000000000) (ascii "hour") 2 entries :=
  stats_bucketed _ _ _ (by decide) (by decide +kernel) (by decide)

example : cloverStats fourRows (8000 * 1000000000) (ascii "hour") 2 =
    some [⟨7200 * 1000000000, 1, 1, 0, 0⟩, ⟨3600 * 1000000000, 2, 0, 1, 1⟩] := by
  decide +kernel

end Db
