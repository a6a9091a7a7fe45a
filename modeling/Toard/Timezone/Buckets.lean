/-
**Which hours are computed and read, and which are invalidated.**

Jobs for the hours of a time zone are put up in advance (`hourlyPrewarmWindows`), and the read
planner lists the hours of a range (`timezoneCacheBuckets`): both count on in steps of 60 minutes
from the first instant of a local date. The invalidation and the aggregation of a bucket go by the
local hour on the wall clock.

* **`hourBucket_agrees_iff`**: the invalidation of each quarter in such an hour addresses just this
  hour, and the aggregation selects each of them, exactly if the offset in every quarter of it puts
  its start on a full local hour.
* **`half_hour_shift_disagrees`**: the hours after a shift of the clock by half an hour.
-/

import Toard.Timezone.Jobs

namespace Toard.Timezone

open Toard.Storage (fifteenMinutesMs fifteenMinuteBucket)

/-! ### The hours in steps of 60 minutes -/

def hourPrewarmDays : Int := 32

def hourSteps (start finish : Int) : List Int :=
  (List.range ((finish - start + hourMs - 1) / hourMs).toNat).map fun (step : Nat) =>
    start + (step : Int) * hourMs

/-- The windows for which jobs are put up in advance; none where a date is skipped. -/
def hourlyPrewarmWindows (zone : Zone) (now : Int) : Option (List TimezoneRollupWindow) := do
  let today := localDateKey zone now
  let start ← firstInstantOfLocalDate zone (today - (hourPrewarmDays - 1))
  let finish ← firstInstantOfLocalDate zone (today + 1)
  return (hourSteps start finish).map fun cursor => ⟨cursor, cursor + hourMs⟩

structure CacheBucket where
  fromTs : Int
  toTs : Int
deriving DecidableEq

def maxDays : Nat := 400

def maxHours : Nat := maxDays * 24

/-- Buckets from a cursor on, each up to the start of the next one, that end in the range; none
where the next start throws. -/
def planBuckets (nextStart : Int → Option Int) (toTs : Int) : Nat → Int → Option (List CacheBucket)
  | 0, _ => some []
  | maximum + 1, cursor =>
    if cursor < toTs then
      match nextStart cursor with
      | none => none
      | some after =>
        if after ≤ cursor ∨ toTs < after then some []
        else (planBuckets nextStart toTs maximum after).map (⟨cursor, after⟩ :: ·)
    else some []

def skipHours (cursor fromTs : Int) : Int :=
  if cursor < fromTs then cursor + (fromTs - cursor + hourMs - 1) / hourMs * hourMs else cursor

/-- The buckets of a range that the read planner looks for in the cache; none where it throws. -/
def timezoneCacheBuckets (resolution : Resolution) (zone : Zone) (fromTs toTs : Int) :
    Option (List CacheBucket) :=
  if toTs ≤ fromTs then some []
  else do
    let midnight ← firstInstantOfLocalDate zone (localDateKey zone fromTs)
    match resolution with
    | .day =>
      (if midnight < fromTs then nextTimezoneDayStart zone midnight else some midnight).bind
        (planBuckets (nextTimezoneDayStart zone) toTs maxDays)
    | .hour =>
      planBuckets (fun cursor => some (cursor + hourMs)) toTs maxHours (skipHours midnight fromTs)

theorem dvd_hourMs : fifteenMinutesMs ∣ hourMs := ⟨4, hourMs_eq⟩

theorem mem_hourSteps {start finish cursor : Int} (among : cursor ∈ hourSteps start finish) :
    hourMs ∣ cursor - start := by
  obtain ⟨step, -, rfl⟩ := List.mem_map.mp among
  exact ⟨step, by ring⟩

/-- **The windows put up in advance are hours from a first instant of a date on.** -/
theorem mem_hourlyPrewarmWindows {zone : Zone} {now : Int} {windows : List TimezoneRollupWindow}
    {window : TimezoneRollupWindow} (planned : hourlyPrewarmWindows zone now = some windows)
    (among : window ∈ windows) :
    fifteenMinutesMs ∣ window.bucket ∧ window.sourceTo = window.bucket + hourMs := by
  obtain ⟨start, isStart, rest⟩ := Option.bind_eq_some_iff.mp planned
  obtain ⟨finish, -, rest⟩ := Option.bind_eq_some_iff.mp rest
  cases rest
  obtain ⟨cursor, isCursor, rfl⟩ := List.mem_map.mp among
  refine ⟨?_, rfl⟩
  have aligned := (firstInstantOfLocalDate_spec isStart).2
  rw [← sub_add_cancel cursor start]
  exact Int.dvd_add (dvd_hourMs.trans (mem_hourSteps isCursor)) aligned

theorem mem_planBuckets_hour {toTs cursor : Int} {maximum : Nat} {buckets : List CacheBucket}
    {bucket : CacheBucket}
    (planned : planBuckets (fun cursor => some (cursor + hourMs)) toTs maximum cursor = some buckets)
    (among : bucket ∈ buckets) :
    hourMs ∣ bucket.fromTs - cursor ∧ bucket.toTs = bucket.fromTs + hourMs := by
  induction maximum generalizing cursor buckets with
  | zero =>
    cases planned
    cases among
  | succ maximum ih =>
    rw [planBuckets] at planned
    split at planned
    case isFalse =>
      cases planned
      cases among
    case isTrue =>
      dsimp only at planned
      split at planned
      case isTrue =>
        cases planned
        cases among
      case isFalse =>
        obtain ⟨rest, restPlanned, rfl⟩ := Option.map_eq_some_iff.mp planned
        rcases List.mem_cons.mp among with rfl | later
        · exact ⟨⟨0, by simp⟩, rfl⟩
        · obtain ⟨steps, length⟩ := ih restPlanned later
          refine ⟨?_, length⟩
          have shifted := Int.dvd_add steps (dvd_refl hourMs)
          rwa [← sub_sub, sub_add_cancel] at shifted

/-- **The hours of the read planner are hours from a first instant of a date on.** -/
theorem mem_timezoneCacheBuckets_hour {zone : Zone} {fromTs toTs : Int}
    {buckets : List CacheBucket} {bucket : CacheBucket}
    (planned : timezoneCacheBuckets .hour zone fromTs toTs = some buckets)
    (among : bucket ∈ buckets) :
    fifteenMinutesMs ∣ bucket.fromTs ∧ bucket.toTs = bucket.fromTs + hourMs := by
  rw [timezoneCacheBuckets] at planned
  split at planned
  · cases planned
    cases among
  · obtain ⟨midnight, isMidnight, rest⟩ := Option.bind_eq_some_iff.mp planned
    obtain ⟨steps, length⟩ := mem_planBuckets_hour rest among
    refine ⟨?_, length⟩
    have aligned := (firstInstantOfLocalDate_spec isMidnight).2
    have skipped : hourMs ∣ skipHours midnight fromTs - midnight := by
      rw [skipHours]
      split
      · exact ⟨_, by rw [add_sub_cancel_left, mul_comm]⟩
      · simp
    have whole := Int.dvd_add (Int.dvd_add (dvd_hourMs.trans steps) (dvd_hourMs.trans skipped)) aligned
    rwa [sub_add_sub_cancel, sub_add_cancel] at whole

/-! ### The hour that an instant belongs to -/

def quarterStart (instant : Int) : Int := fifteenMinuteBucket instant * fifteenMinutesMs

/-- The `WHERE` clause of `compactTimezoneRollup` for a quarter of the 15-minute rollup; `startOf` is
ClickHouse's start of the local hour or day. -/
def selectsQuarter (startOf : Resolution → String → Int → Int) (key : BucketKey) (toTs quarter : Int) :
    Bool :=
  key.bucket ≤ quarter * fifteenMinutesMs ∧ quarter * fifteenMinutesMs < toTs ∧
    startOf key.resolution key.timezone (quarter * fifteenMinutesMs) = key.bucket

/-- Planned hours, by those who put up jobs in advance and by the read planner. -/
inductive Planned (zone : Zone) (bucket : Int) : Prop where
  | prewarmed (now : Int) (windows : List TimezoneRollupWindow)
      (listed : hourlyPrewarmWindows zone now = some windows)
      (among : ∃ window ∈ windows, window.bucket = bucket) : Planned zone bucket
  | read (fromTs toTs : Int) (buckets : List CacheBucket)
      (listed : timezoneCacheBuckets .hour zone fromTs toTs = some buckets)
      (among : ∃ planned ∈ buckets, planned.fromTs = bucket) : Planned zone bucket

/-- The invalidation of the quarter of an instant drops the coverage of just this hour, of all hours
of the time zone, and puts its job up again. -/
def Invalidates (calendar : Calendar) (timezone : String) (bucket instant : Int) : Prop :=
  ∀ (tables : RollupTables) (now : Int), timezone ∈ tables.timezones →
    let after := invalidateTimezoneRollupJobs calendar now tables [quarterStart instant]
    after.coverage ⟨.hour, timezone, bucket⟩ = false ∧
    after.jobs ⟨.hour, timezone, bucket⟩ = some (requeue (tables.jobs ⟨.hour, timezone, bucket⟩)
      tables.nextId (bucket + hourMs) now) ∧
    ∀ other, other ≠ bucket →
      after.coverage ⟨.hour, timezone, other⟩ = tables.coverage ⟨.hour, timezone, other⟩ ∧
      after.jobs ⟨.hour, timezone, other⟩ = tables.jobs ⟨.hour, timezone, other⟩

structure HourAgrees (calendar : Calendar) (startOf : Resolution → String → Int → Int)
    (timezone : String) (bucket : Int) : Prop where
  invalidated : ∀ instant, bucket ≤ instant → instant < bucket + hourMs →
    Invalidates calendar timezone bucket instant
  selected : ∀ quarter, bucket ≤ quarter * fifteenMinutesMs →
    quarter * fifteenMinutesMs < bucket + hourMs →
    selectsQuarter startOf ⟨.hour, timezone, bucket⟩ (bucket + hourMs) quarter = true

/-- In every quarter of the hour the offset then in force puts its start on a full local hour. -/
def FullHour (zone : Zone) (bucket : Int) : Prop :=
  ∀ instant, bucket ≤ instant → instant < bucket + hourMs → hourMs ∣ bucket + zone.offset instant

theorem quarterStart_mem {bucket instant : Int} (aligned : fifteenMinutesMs ∣ bucket)
    (lower : bucket ≤ instant) (upper : instant < bucket + hourMs) :
    bucket ≤ quarterStart instant ∧ quarterStart instant < bucket + hourMs := by
  simp only [quarterStart, fifteenMinuteBucket, fifteenMinutesMs, hourMs] at *
  omega

theorem offset_quarterStart (zone : Zone) (instant : Int) :
    zone.offset (quarterStart instant) = zone.offset instant := by
  simp only [Zone.offset, quarterStart, fifteenMinuteBucket]
  rw [Int.mul_ediv_cancel _ fifteenMinutesMs_pos.ne']

theorem invalidates_iff (calendar : Calendar) (timezone : String) (bucket instant : Int) :
    Invalidates calendar timezone bucket instant ↔
      calendar.dateTrunc .hour timezone (quarterStart instant) = bucket := by
  have asked : ∀ (timezones : List String) (other : Int), timezone ∈ timezones →
      (calendar.requested timezones [quarterStart instant] ⟨.hour, timezone, other⟩ = true ↔
        calendar.dateTrunc .hour timezone (quarterStart instant) = other) := by
    intro timezones other registered
    simp only [Calendar.requested, registered, List.mem_singleton, exists_eq_left, true_and,
      decide_eq_true_eq]
  constructor
  · intro invalidates
    -- A table in which every hour is covered.
    have dropped := (invalidates ⟨[timezone], fun _ => none, fun _ => true, 0⟩ 0
      List.mem_cons_self).1
    simp only [invalidateTimezoneRollupJobs, Bool.true_and, Bool.not_eq_false'] at dropped
    exact (asked _ _ List.mem_cons_self).mp dropped
  · intro same tables now registered
    have own := (asked tables.timezones bucket registered).mpr same
    refine ⟨?_, ?_, fun other different => ?_⟩
    · simp only [invalidateTimezoneRollupJobs, own, Bool.not_true, Bool.and_false]
    · simp only [invalidateTimezoneRollupJobs, own, if_true]
      rfl
    · have elsewhere : calendar.requested tables.timezones [quarterStart instant]
          ⟨.hour, timezone, other⟩ = false := by
        refine Bool.eq_false_iff.mpr fun requested => different ?_
        exact ((asked _ _ registered).mp requested).symm.trans same
      simp only [invalidateTimezoneRollupJobs, elsewhere, Bool.not_false, Bool.and_true,
        Bool.false_eq_true, if_false, and_self]

/-- The hours of Postgres and ClickHouse are those of the wall clock. -/
structure WallClockHours (calendar : Calendar) (startOf : Resolution → String → Int → Int)
    (timezone : String) (zone : Zone) : Prop where
  postgres : ∀ instant, calendar.dateTrunc .hour timezone instant = startOfHour zone instant
  clickHouse : ∀ instant, startOf .hour timezone instant = startOfHour zone instant

theorem hourAgrees_iff_fullHour {calendar : Calendar} {startOf : Resolution → String → Int → Int}
    {timezone : String} {zone : Zone} (hours : WallClockHours calendar startOf timezone zone)
    {bucket : Int} (aligned : fifteenMinutesMs ∣ bucket) :
    HourAgrees calendar startOf timezone bucket ↔ FullHour zone bucket := by
  constructor
  · intro agrees instant lower upper
    have truncated := (invalidates_iff _ _ _ _).mp (agrees.invalidated instant lower upper)
    obtain ⟨inLower, inUpper⟩ := quarterStart_mem aligned lower upper
    rw [hours.postgres, startOfHour_eq_iff inLower inUpper, offset_quarterStart] at truncated
    exact truncated
  · intro full
    refine ⟨fun instant lower upper => (invalidates_iff _ _ _ _).mpr ?_, fun quarter lower upper => ?_⟩
    · obtain ⟨inLower, inUpper⟩ := quarterStart_mem aligned lower upper
      rw [hours.postgres, startOfHour_eq_iff inLower inUpper, offset_quarterStart]
      exact full instant lower upper
    · have whole := (startOfHour_eq_iff lower upper).mpr (full _ lower upper)
      exact decide_eq_true ⟨lower, upper, (hours.clickHouse _).trans whole⟩

theorem Planned.aligned {zone : Zone} {bucket : Int} (planned : Planned zone bucket) :
    fifteenMinutesMs ∣ bucket := by
  cases planned with
  | prewarmed now windows listed among =>
    obtain ⟨window, isWindow, rfl⟩ := among
    exact (mem_hourlyPrewarmWindows listed isWindow).1
  | read fromTs toTs buckets listed among =>
    obtain ⟨read, isRead, rfl⟩ := among
    exact (mem_timezoneCacheBuckets_hour listed isRead).1

/-- **Hour buckets agree across components exactly where they are full local hours.** -/
theorem hourBucket_agrees_iff {calendar : Calendar} {startOf : Resolution → String → Int → Int}
    {timezone : String} {zone : Zone} (hours : WallClockHours calendar startOf timezone zone)
    {bucket : Int} (planned : Planned zone bucket) :
    HourAgrees calendar startOf timezone bucket ↔ FullHour zone bucket :=
  hourAgrees_iff_fullHour hours planned.aligned

def wallClockCalendar (zone : Zone) : Calendar where
  dateTrunc := fun _ _ instant => startOfHour zone instant
  localDate := fun _ instant => localDateKey zone instant
  dateStart := fun _ date => date * dayMs

theorem wallClockCalendar_hours (zone : Zone) (timezone : String) :
    WallClockHours (wallClockCalendar zone) (fun _ _ instant => startOfHour zone instant) timezone
      zone :=
  ⟨fun _ => rfl, fun _ => rfl⟩

def kathmandu : Zone := ⟨fun _ => 23⟩

set_option maxRecDepth 8000 in
/-- An hour of 1970-01-02 in Nepal. -/
theorem hourBucket_agrees_kathmandu : HourAgrees (wallClockCalendar kathmandu)
    (fun _ _ instant => startOfHour kathmandu instant) "Asia/Kathmandu" 65700000 := by
  have planned : Planned kathmandu 65700000 :=
    .read 65700000 69300000 [⟨65700000, 69300000⟩] (by decide) ⟨_, List.mem_cons_self, rfl⟩
  refine (hourBucket_agrees_iff (wallClockCalendar_hours _ _) planned).mpr ?_
  exact fun _ _ _ => (by decide : hourMs ∣ 65700000 + 23 * fifteenMinutesMs)

/-- Lord Howe Island: at 15:00 UTC on 2026-04-04 the clock went back from 2:00 to 1:30. -/
def lordHowe : Zone := ⟨fun quarter => if quarter < 1972572 then 44 else 42⟩

/-- **After a shift by half an hour the components disagree.** The read planner's third hour of that
day begins at 1:30 on the clock, and its quarters are invalidated as part of other hours. -/
theorem half_hour_shift_disagrees : ¬ ∀ (calendar : Calendar)
    (startOf : Resolution → String → Int → Int) (timezone : String) (zone : Zone) (bucket : Int),
    WallClockHours calendar startOf timezone zone → Planned zone bucket →
    HourAgrees calendar startOf timezone bucket := by
  intro claimed
  have planned : Planned lordHowe (1972572 * fifteenMinutesMs) :=
    .read (1972564 * fifteenMinutesMs) (1972576 * fifteenMinutesMs)
      [⟨1972564 * fifteenMinutesMs, 1972568 * fifteenMinutesMs⟩,
        ⟨1972568 * fifteenMinutesMs, 1972572 * fifteenMinutesMs⟩,
        ⟨1972572 * fifteenMinutesMs, 1972576 * fifteenMinutesMs⟩]
      (by decide +kernel) ⟨_, List.mem_cons_of_mem _ (List.mem_cons_of_mem _ List.mem_cons_self), rfl⟩
  have agrees := claimed _ _ "Australia/Lord_Howe" _ _ (wallClockCalendar_hours lordHowe _) planned
  have full := (hourAgrees_iff_fullHour (wallClockCalendar_hours lordHowe _) planned.aligned).mp
    agrees _ (Int.le_refl _) (by decide)
  exact absurd full (by decide)

end Toard.Timezone
