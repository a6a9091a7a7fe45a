/-
**Reading a range from three tables (`resolveTimeseriesSource`).**

A range is read from the cached hours or days of a time zone as far as they are covered and done,
around them from the 15-minute rollup as far as it is clean, and the rest from the raw events.

* **`hybrid_reads_iff`**: with a faithful rollup and cache, the plan covers the range exactly and
  every sum over it is that over the raw events, exactly if the cached window starts in the range
  and the cached rows that start in it at none of its buckets add nothing.
* **`stray_hours_count_twice`**: an hour that was invalidated at half past is read beside those of
  the plan.

The memo of day plans and the sharing of queries in flight are left out: they repeat an answer.
-/

import Mathlib.Data.List.TakeWhile
import Toard.Timezone.Cache

namespace Toard.Timezone

open Toard.Library
open Toard.Storage

/-! ### The state that is read -/

structure ReadState where
  read15mV2 : Bool
  readTimezone : Bool
  /-- The validated rows of `clickhouse_rollup_timezones`. -/
  validated : List String
  /-- The watermark of `usage_15m_v2`, in quarters of an hour. -/
  watermark : Option Int
  dirty : List Int
  jobs : BucketKey → Option JobStatus
  coverage : BucketKey → Bool
  raw : List UsageRow
  rollup : List RollupRow
  cache : List TimezoneRow

def ReadState.Finished (state : ReadState) (key : BucketKey) : Prop :=
  ∀ status, state.jobs key = some status → status = .done

instance (state : ReadState) (key : BucketKey) : Decidable (state.Finished key) :=
  match found : state.jobs key with
  | none => .isTrue fun status some => by rw [found] at some; cases some
  | some status =>
    if done : status = .done then
      .isTrue fun other some => by rw [found] at some; cases some; exact done
    else .isFalse fun finished => done (finished status found)

structure ReadState.Faithful (state : ReadState) (zones : String → Zone) : Prop where
  rollup : ∀ watermark, state.watermark = some watermark → ∀ quarter < watermark,
    quarter ∉ state.dirty → rollupTotals state.rollup quarter = aggregate state.raw quarter
  cache : ∀ key toTs, state.coverage key = true → state.Finished key →
    bucketEnd zones key = some toTs → baseReady state.watermark state.dirty key.bucket toTs = true →
    cacheTotals state.cache key = timezoneAggregate state.rollup key.bucket toTs

/-! ### The plan -/

inductive SegmentKind where
  | raw
  | rollup
  | cache (resolution : Resolution) (timezone : String)
deriving DecidableEq

structure Segment where
  kind : SegmentKind
  fromTs : Int
  toTs : Int
deriving DecidableEq

def Segment.piece (segment : Segment) : Int × Int := (segment.fromTs, segment.toTs)

def floorRollupDate (ts : Int) : Int := ts / fifteenMinutesMs * fifteenMinutesMs

def ceilRollupDate (ts : Int) : Int :=
  if floorRollupDate ts = ts then ts else floorRollupDate ts + fifteenMinutesMs

def firstDirty (dirty : List Int) (fromTs toTs : Int) : Option Int :=
  ((dirty.map fun quarter => quarter * fifteenMinutesMs).filter fun bucket =>
    fromTs ≤ bucket ∧ bucket < toTs).min?

def rollupWindow (state : ReadState) (fromTs toTs : Int) : Option (Int × Int) :=
  if toTs ≤ fromTs then none
  else
    let rollupFrom := ceilRollupDate fromTs
    let rollupTo := floorRollupDate toTs
    if rollupTo ≤ rollupFrom then none
    else
      match state.watermark with
      | none => none
      | some watermark =>
        let current := watermark * fifteenMinutesMs
        let rollupTo := if current < rollupTo then current else rollupTo
        if rollupTo ≤ rollupFrom then none
        else
          let rollupTo := match firstDirty state.dirty rollupFrom rollupTo with
            | some dirtyBucket => if dirtyBucket < rollupTo then dirtyBucket else rollupTo
            | none => rollupTo
          if rollupFrom < rollupTo then some (rollupFrom, rollupTo) else none

def exactTimeseriesSource (state : ReadState) (fromTs toTs : Int) : List Segment :=
  match (if state.read15mV2 then rollupWindow state fromTs toTs else none) with
  | none => [⟨.raw, fromTs, toTs⟩]
  | some (rollupFrom, rollupTo) =>
    [⟨.raw, fromTs, rollupFrom⟩, ⟨.rollup, rollupFrom, rollupTo⟩, ⟨.raw, rollupTo, toTs⟩]

def bucketReady (state : ReadState) (resolution : Resolution) (timezone : String) (coveredTo : Int)
    (dirtyBucket : Option Int) (bucket : CacheBucket) : Bool :=
  bucket.toTs ≤ coveredTo ∧ (∀ dirty ∈ dirtyBucket, ¬ dirty < bucket.toTs) ∧
    state.coverage ⟨resolution, timezone, bucket.fromTs⟩ = true ∧
    state.Finished ⟨resolution, timezone, bucket.fromTs⟩

/-- The cached buckets to read: the first ones of the range, up to the first that is not ready. -/
def cacheReady (state : ReadState) (zones : String → Zone) (resolution : Resolution)
    (timezone : String) (fromTs toTs : Int) : Option (List CacheBucket) :=
  if state.readTimezone = true ∧ timezone ∈ state.validated then
    match timezoneCacheBuckets resolution (zones timezone) fromTs toTs, state.watermark with
    | some expected, some watermark =>
      match expected.head?, expected.getLast? with
      | some first, some last =>
        let buckets := expected.takeWhile
          (bucketReady state resolution timezone (watermark * fifteenMinutesMs)
            (firstDirty state.dirty first.fromTs last.toTs))
        if buckets = [] then none else some buckets
      | _, _ => none
    | _, _ => none
  else none

def aroundCache (state : ReadState) (resolution : Resolution) (timezone : String)
    (fromTs toTs : Int) (cacheFrom cacheTo : Int) : List Segment :=
  (if fromTs < cacheFrom then exactTimeseriesSource state fromTs cacheFrom else []) ++
    [⟨.cache resolution timezone, cacheFrom, cacheTo⟩] ++
    (if cacheTo < toTs then exactTimeseriesSource state cacheTo toTs else [])

inductive TimeBucket where
  | fifteenMinutes
  | thirtyMinutes
  | hour
  | day
deriving DecidableEq

def TimeBucket.resolution : TimeBucket → Option Resolution
  | .day => some .day
  | .hour => some .hour
  | _ => none

def cachedBuckets (state : ReadState) (canonicalTimezoneId : String → Option String)
    (zones : String → Zone) (bucket : Option TimeBucket) (timezone : String) (fromTs toTs : Int) :
    Option (Resolution × String × List CacheBucket) := do
  let canonical ← canonicalTimezoneId timezone
  let resolution ← bucket.bind TimeBucket.resolution
  let buckets ← cacheReady state zones resolution canonical fromTs toTs
  return (resolution, canonical, buckets)

def resolveTimeseriesSource (state : ReadState) (canonicalTimezoneId : String → Option String)
    (zones : String → Zone) (bucket : Option TimeBucket) (timezone : String) (fromTs toTs : Int) :
    List Segment :=
  match cachedBuckets state canonicalTimezoneId zones bucket timezone fromTs toTs with
  | some (resolution, canonical, first :: rest) =>
    aroundCache state resolution canonical fromTs toTs first.fromTs
      ((first :: rest).getLast (List.cons_ne_nil _ _)).toTs
  | _ => exactTimeseriesSource state fromTs toTs

/-! ### The rows of a plan -/

def SegmentKind.table (state : ReadState) : SegmentKind → List SourceRow
  | .raw => state.raw.map rawRow
  | .rollup => (finalRollup state.rollup).map rollupRow
  | .cache resolution timezone => ((finalCache state.cache).filter fun row =>
      row.key.resolution = resolution ∧ row.key.timezone = timezone).map cacheRow

def Segment.rows (state : ReadState) (segment : Segment) : List SourceRow :=
  (segment.kind.table state).filter fun row => segment.fromTs ≤ row.ts ∧ row.ts < segment.toTs

def querySum (column : Column) (keep : Dimensions → Bool) (rows : List SourceRow) : Int :=
  sumOf (SourceRow.value column) (fun row => keep row.dimensions) rows

/-! ### The rollup's part -/

theorem firstDirty_eq_none {dirty : List Int} {fromTs toTs : Int}
    (absent : firstDirty dirty fromTs toTs = none) : ∀ quarter ∈ dirty,
    ¬ (fromTs ≤ quarter * fifteenMinutesMs ∧ quarter * fifteenMinutesMs < toTs) := by
  intro quarter among within
  rw [firstDirty, List.min?_eq_none_iff, List.filter_eq_nil_iff] at absent
  exact absent _ (List.mem_map_of_mem among) (decide_eq_true within)

theorem firstDirty_eq_some {dirty : List Int} {fromTs toTs first : Int}
    (found : firstDirty dirty fromTs toTs = some first) :
    fifteenMinutesMs ∣ first ∧ first < toTs ∧ ∀ quarter ∈ dirty,
      ¬ (fromTs ≤ quarter * fifteenMinutesMs ∧ quarter * fifteenMinutesMs < first) := by
  rw [firstDirty, List.min?_eq_some_iff] at found
  obtain ⟨among, least⟩ := found
  obtain ⟨isBucket, within⟩ := List.mem_filter.mp among
  obtain ⟨quarter, -, rfl⟩ := List.mem_map.mp isBucket
  have inRange := of_decide_eq_true within
  refine ⟨⟨quarter, mul_comm _ _⟩, inRange.2, fun other otherAmong earlier => ?_⟩
  have atLeast := least _ (List.mem_filter.mpr ⟨List.mem_map_of_mem otherAmong,
    decide_eq_true ⟨earlier.1, earlier.2.trans inRange.2⟩⟩)
  exact absurd earlier.2 (not_lt.mpr atLeast)

/-- The buckets of the rollup from one time to another are whole, below the watermark and clean. -/
structure CleanBuckets (state : ReadState) (fromTs toTs : Int) : Prop where
  starts : fifteenMinutesMs ∣ fromTs
  ends : fifteenMinutesMs ∣ toTs
  clean : ∃ watermark, state.watermark = some watermark ∧ toTs ≤ watermark * fifteenMinutesMs ∧
    ∀ quarter ∈ state.dirty,
      ¬ (fromTs ≤ quarter * fifteenMinutesMs ∧ quarter * fifteenMinutesMs < toTs)

theorem dvd_floorRollupDate (ts : Int) : fifteenMinutesMs ∣ floorRollupDate ts :=
  ⟨_, mul_comm _ _⟩

theorem floorRollupDate_le (ts : Int) : floorRollupDate ts ≤ ts :=
  Int.ediv_mul_le ts fifteenMinutesMs_pos.ne'

theorem ceilRollupDate_spec (ts : Int) :
    fifteenMinutesMs ∣ ceilRollupDate ts ∧ ts ≤ ceilRollupDate ts := by
  unfold ceilRollupDate floorRollupDate
  simp only [fifteenMinutesMs]
  split_ifs <;> omega

/-- **The part of a range that is read from the rollup.** -/
theorem rollupWindow_spec {state : ReadState} {fromTs toTs rollupFrom rollupTo : Int}
    (window : rollupWindow state fromTs toTs = some (rollupFrom, rollupTo)) :
    fromTs ≤ rollupFrom ∧ rollupFrom ≤ rollupTo ∧ rollupTo ≤ toTs ∧
      CleanBuckets state rollupFrom rollupTo := by
  unfold rollupWindow at window
  dsimp only at window
  obtain ⟨ceilAligned, ceilLe⟩ := ceilRollupDate_spec fromTs
  have floorAligned := dvd_floorRollupDate toTs
  have floorLe := floorRollupDate_le toTs
  split_ifs at window with empty short
  cases recorded : state.watermark with
  | none =>
    rw [recorded] at window
    cases window
  | some watermark =>
    rw [recorded] at window
    dsimp only at window
    -- The end before the marks are looked at.
    generalize bounded : (if watermark * fifteenMinutesMs < floorRollupDate toTs
      then watermark * fifteenMinutesMs else floorRollupDate toTs) = limit at window
    have limitAligned : fifteenMinutesMs ∣ limit := by
      rw [← bounded]
      split
      · exact ⟨_, mul_comm _ _⟩
      · exact floorAligned
    have limitLe : limit ≤ floorRollupDate toTs ∧ limit ≤ watermark * fifteenMinutesMs := by
      rw [← bounded]
      split <;> omega
    split at window
    · cases window
    cases marks : firstDirty state.dirty (ceilRollupDate fromTs) limit with
    | none =>
      rw [marks] at window
      dsimp only at window
      split_ifs at window with wide
      cases window
      exact ⟨ceilLe, wide.le, limitLe.1.trans floorLe, ceilAligned, limitAligned, watermark,
        recorded, limitLe.2, firstDirty_eq_none marks⟩
    | some dirtyBucket =>
      rw [marks] at window
      obtain ⟨dirtyAligned, dirtyLt, clean⟩ := firstDirty_eq_some marks
      dsimp only at window
      simp only [if_pos dirtyLt] at window
      split_ifs at window with wide
      cases window
      exact ⟨ceilLe, wide.le, dirtyLt.le.trans (limitLe.1.trans floorLe), ceilAligned, dirtyAligned,
        watermark, recorded, dirtyLt.le.trans limitLe.2, clean⟩

/-- The segments follow one another from the first time to the second. -/
def Follow (fromTs : Int) (segments : List Segment) (toTs : Int) : Prop :=
  Tiles fromTs (segments.map Segment.piece) toTs

/-- **A range read from the rollup and the raw events around it is read piece by piece.** -/
theorem exactTimeseriesSource_follow (state : ReadState) {fromTs toTs : Int}
    (ordered : fromTs ≤ toTs) : Follow fromTs (exactTimeseriesSource state fromTs toTs) toTs := by
  unfold exactTimeseriesSource
  split
  · exact .single ordered
  · next rollupFrom rollupTo planned =>
    split_ifs at planned
    obtain ⟨first, second, third, -⟩ := rollupWindow_spec planned
    exact .cons first (.cons second (.single third))

theorem exactTimeseriesSource_of_empty (state : ReadState) {fromTs toTs : Int}
    (empty : toTs ≤ fromTs) : exactTimeseriesSource state fromTs toTs = [⟨.raw, fromTs, toTs⟩] := by
  unfold exactTimeseriesSource rollupWindow
  rw [if_pos empty]
  split
  · rfl
  · next planned =>
    split_ifs at planned

theorem exactTimeseriesSource_clean {state : ReadState} {fromTs toTs : Int} {segment : Segment}
    (among : segment ∈ exactTimeseriesSource state fromTs toTs) :
    segment.kind = .raw ∨
      (segment.kind = .rollup ∧ CleanBuckets state segment.fromTs segment.toTs) := by
  unfold exactTimeseriesSource at among
  split at among
  · rw [List.mem_singleton.mp among]
    exact Or.inl rfl
  · next rollupFrom rollupTo planned =>
    split_ifs at planned
    obtain ⟨-, -, -, clean⟩ := rollupWindow_spec planned
    simp only [List.mem_cons, List.not_mem_nil, or_false] at among
    rcases among with rfl | rfl | rfl
    · exact Or.inl rfl
    · exact Or.inr ⟨rfl, clean⟩
    · exact Or.inl rfl

/-! ### The cached part -/

def CacheBucket.piece (bucket : CacheBucket) : Int × Int := (bucket.fromTs, bucket.toTs)

/-- **Buckets are planned one after another**, each up to the start of the next, in the range. -/
theorem planBuckets_tile {nextStart : Int → Option Int} {toTs cursor : Int} {maximum : Nat}
    {buckets : List CacheBucket}
    (planned : planBuckets nextStart toTs maximum cursor = some buckets) :
    (∃ finish, Tiles cursor (buckets.map CacheBucket.piece) finish) ∧
      ∀ bucket ∈ buckets, nextStart bucket.fromTs = some bucket.toTs ∧
        bucket.fromTs < bucket.toTs ∧ bucket.toTs ≤ toTs := by
  induction maximum generalizing cursor buckets with
  | zero =>
    cases planned
    exact ⟨⟨cursor, .nil cursor⟩, List.forall_mem_nil _⟩
  | succ maximum ih =>
    rw [planBuckets] at planned
    split at planned
    case isFalse =>
      cases planned
      exact ⟨⟨cursor, .nil cursor⟩, List.forall_mem_nil _⟩
    case isTrue =>
      cases starts : nextStart cursor with
      | none =>
        rw [starts] at planned
        cases planned
      | some after =>
        rw [starts] at planned
        dsimp only at planned
        split at planned
        · cases planned
          exact ⟨⟨cursor, .nil cursor⟩, List.forall_mem_nil _⟩
        · next inside =>
          obtain ⟨rest, restPlanned, rfl⟩ := Option.map_eq_some_iff.mp planned
          obtain ⟨⟨finish, tiles⟩, each⟩ := ih restPlanned
          obtain ⟨forward, within⟩ := not_or.mp inside
          rw [not_le] at forward
          rw [not_lt] at within
          refine ⟨⟨finish, .cons forward.le tiles⟩, ?_⟩
          rw [List.forall_mem_cons]
          exact ⟨⟨starts, forward, within⟩, each⟩

theorem timezoneCacheBuckets_tile {resolution : Resolution} {zones : String → Zone}
    {timezone : String} {fromTs toTs : Int} {buckets : List CacheBucket}
    (planned : timezoneCacheBuckets resolution (zones timezone) fromTs toTs = some buckets) :
    (∃ start finish, fifteenMinutesMs ∣ start ∧ Tiles start (buckets.map CacheBucket.piece) finish) ∧
      ∀ bucket ∈ buckets, bucketEnd zones ⟨resolution, timezone, bucket.fromTs⟩ = some bucket.toTs ∧
        bucket.fromTs < bucket.toTs ∧ bucket.toTs ≤ toTs := by
  rw [timezoneCacheBuckets] at planned
  split at planned
  case isTrue =>
    cases planned
    exact ⟨⟨0, 0, dvd_zero _, .nil 0⟩, List.forall_mem_nil _⟩
  case isFalse =>
    obtain ⟨midnight, isMidnight, rest⟩ := Option.bind_eq_some_iff.mp planned
    have midnightAligned := (firstInstantOfLocalDate_spec isMidnight).2
    cases resolution with
    | day =>
      obtain ⟨cursor, isCursor, rest⟩ := Option.bind_eq_some_iff.mp rest
      obtain ⟨⟨finish, tiles⟩, each⟩ := planBuckets_tile rest
      refine ⟨⟨cursor, finish, ?_, tiles⟩, each⟩
      split at isCursor
      · exact (firstInstantOfLocalDate_spec isCursor).2
      · cases isCursor
        exact midnightAligned
    | hour =>
      obtain ⟨⟨finish, tiles⟩, each⟩ := planBuckets_tile rest
      refine ⟨⟨_, finish, ?_, tiles⟩, each⟩
      rw [skipHours]
      split
      · exact Int.dvd_add midnightAligned (dvd_hourMs.mul_left _)
      · exact midnightAligned

structure CachedWindow (state : ReadState) (zones : String → Zone) (resolution : Resolution)
    (timezone : String) (buckets : List CacheBucket) (cacheFrom cacheTo : Int) : Prop where
  tiles : Tiles cacheFrom (buckets.map CacheBucket.piece) cacheTo
  starts : fifteenMinutesMs ∣ cacheFrom
  covered : ∀ bucket ∈ buckets, state.coverage ⟨resolution, timezone, bucket.fromTs⟩ = true ∧
    state.Finished ⟨resolution, timezone, bucket.fromTs⟩
  ready : ∀ bucket ∈ buckets, baseReady state.watermark state.dirty bucket.fromTs bucket.toTs = true
  ends : ∀ bucket ∈ buckets, bucketEnd zones ⟨resolution, timezone, bucket.fromTs⟩ = some bucket.toTs
  wide : ∀ bucket ∈ buckets, bucket.fromTs < bucket.toTs

theorem dvd_bucketEnd {zones : String → Zone} {key : BucketKey} {toTs : Int}
    (ends : bucketEnd zones key = some toTs) (aligned : fifteenMinutesMs ∣ key.bucket) :
    fifteenMinutesMs ∣ toTs := by
  unfold bucketEnd at ends
  split at ends
  · cases ends
    exact Int.dvd_add aligned dvd_hourMs
  · exact (firstInstantOfLocalDate_spec ends).2

theorem CachedWindow.aligned {state : ReadState} {zones : String → Zone} {resolution : Resolution}
    {timezone : String} {buckets : List CacheBucket} {cacheFrom cacheTo : Int}
    (window : CachedWindow state zones resolution timezone buckets cacheFrom cacheTo) :
    fifteenMinutesMs ∣ cacheTo := by
  obtain ⟨tiles, starts, -, -, ends, -⟩ := window
  induction buckets generalizing cacheFrom with
  | nil =>
    cases tiles
    exact starts
  | cons bucket rest ih =>
    cases tiles with
    | cons ordered tail =>
      exact ih tail (dvd_bucketEnd (ends bucket List.mem_cons_self) starts)
        fun other among => ends other (List.mem_cons_of_mem bucket among)

theorem CachedWindow.clean {state : ReadState} {zones : String → Zone} {resolution : Resolution}
    {timezone : String} {buckets : List CacheBucket} {cacheFrom cacheTo : Int}
    (window : CachedWindow state zones resolution timezone buckets cacheFrom cacheTo) {quarter : Int}
    (lower : cacheFrom ≤ quarter * fifteenMinutesMs)
    (upper : quarter * fifteenMinutesMs < cacheTo) :
    ∃ watermark, state.watermark = some watermark ∧ quarter < watermark ∧ quarter ∉ state.dirty := by
  obtain ⟨piece, isPiece, inside⟩ := (window.tiles.covers _).mpr ⟨lower, upper⟩
  obtain ⟨bucket, among, rfl⟩ := List.mem_map.mp isPiece
  obtain ⟨below, clean⟩ := of_decide_eq_true (window.ready bucket among)
  cases recorded : state.watermark with
  | none =>
    rw [recorded] at below
    cases below
  | some watermark =>
    rw [recorded] at below
    have within := inside.2.trans_le (of_decide_eq_true below)
    exact ⟨watermark, rfl, Int.lt_of_mul_lt_mul_right within fifteenMinutesMs_pos.le,
      fun marked => clean quarter marked inside⟩

theorem CachedWindow.distinct {state : ReadState} {zones : String → Zone} {resolution : Resolution}
    {timezone : String} {buckets : List CacheBucket} {cacheFrom cacheTo : Int}
    (window : CachedWindow state zones resolution timezone buckets cacheFrom cacheTo) :
    (buckets.map CacheBucket.fromTs).Nodup := by
  have ordered := List.pairwise_map.mp window.tiles.ordered
  refine List.pairwise_map.mpr (ordered.imp_of_mem fun {earlier later} isEarlier _ before same => ?_)
  have wide := window.wide earlier isEarlier
  exact absurd (wide.trans_le before) (same ▸ lt_irrefl _)

theorem CachedWindow.within {state : ReadState} {zones : String → Zone} {resolution : Resolution}
    {timezone : String} {buckets : List CacheBucket} {cacheFrom cacheTo : Int}
    (window : CachedWindow state zones resolution timezone buckets cacheFrom cacheTo)
    {bucket : CacheBucket} (among : bucket ∈ buckets) :
    cacheFrom ≤ bucket.fromTs ∧ bucket.fromTs < cacheTo :=
  ⟨window.tiles.start_le bucket.piece (List.mem_map_of_mem among),
    (window.wide bucket among).trans_le
      (window.tiles.le_end bucket.piece (List.mem_map_of_mem among))⟩

theorem bucketReady_spec {state : ReadState} {resolution : Resolution} {timezone : String}
    {watermark : Int} {first last : Int} {bucket : CacheBucket}
    (recorded : state.watermark = some watermark) (lower : first ≤ bucket.fromTs)
    (upper : bucket.toTs ≤ last)
    (ready : bucketReady state resolution timezone (watermark * fifteenMinutesMs)
      (firstDirty state.dirty first last) bucket = true) :
    baseReady state.watermark state.dirty bucket.fromTs bucket.toTs = true ∧
      state.coverage ⟨resolution, timezone, bucket.fromTs⟩ = true ∧
      state.Finished ⟨resolution, timezone, bucket.fromTs⟩ := by
  obtain ⟨below, unmarked, covered, finished⟩ := of_decide_eq_true ready
  refine ⟨decide_eq_true ⟨?_, fun quarter marked inside => ?_⟩, covered, finished⟩
  · rw [recorded]
    exact decide_eq_true below
  · cases marks : firstDirty state.dirty first last with
    | none =>
      exact firstDirty_eq_none marks quarter marked
        ⟨lower.trans inside.1, inside.2.trans_le upper⟩
    | some dirtyBucket =>
      have later := not_lt.mp (unmarked dirtyBucket marks)
      exact (firstDirty_eq_some marks).2.2 quarter marked
        ⟨lower.trans inside.1, inside.2.trans_le later⟩

theorem getLast_toTs {start finish : Int} {buckets : List CacheBucket}
    (tiles : Tiles start (buckets.map CacheBucket.piece) finish) (nonempty : buckets ≠ []) :
    (buckets.getLast nonempty).toTs = finish := by
  rw [← tiles.getLast (List.map_eq_nil_iff.not.mpr nonempty), List.getLast_map]
  rfl

theorem cachedWindow_of_planned {state : ReadState} {zones : String → Zone} {resolution : Resolution}
    {timezone : String} {fromTs toTs watermark : Int} {first : CacheBucket} {rest : List CacheBucket}
    (planned : timezoneCacheBuckets resolution (zones timezone) fromTs toTs = some (first :: rest))
    (recorded : state.watermark = some watermark) {buckets : List CacheBucket}
    (isPrefix : buckets = (first :: rest).takeWhile
      (bucketReady state resolution timezone (watermark * fifteenMinutesMs)
        (firstDirty state.dirty first.fromTs ((first :: rest).getLast (List.cons_ne_nil _ _)).toTs)))
    (nonempty : buckets ≠ []) :
    CachedWindow state zones resolution timezone buckets first.fromTs
      (buckets.getLast nonempty).toTs ∧ (buckets.getLast nonempty).toTs ≤ toTs := by
  obtain ⟨⟨start, finish, aligned, tiles⟩, each⟩ := timezoneCacheBuckets_tile planned
  have isStart : start = first.fromTs := by
    cases tiles
    rfl
  subst isStart
  have isFinish := getLast_toTs tiles (List.cons_ne_nil _ _)
  rw [isFinish] at isPrefix
  have among : ∀ bucket ∈ buckets, bucket ∈ first :: rest := by
    rw [isPrefix]
    exact fun bucket isBucket => (List.takeWhile_prefix _).subset isBucket
  have ready : ∀ bucket ∈ buckets, _ := fun bucket isBucket =>
    bucketReady_spec recorded
      (tiles.start_le bucket.piece (List.mem_map_of_mem (among bucket isBucket)))
      (tiles.le_end bucket.piece (List.mem_map_of_mem (among bucket isBucket)))
      (List.mem_takeWhile_imp (isPrefix ▸ isBucket))
  obtain ⟨others, whole⟩ : buckets <+: first :: rest := isPrefix ▸ List.takeWhile_prefix _
  rw [← whole, List.map_append] at tiles
  obtain ⟨cacheTo, cached, -⟩ := tiles.split
  have isLast := getLast_toTs cached nonempty
  rw [isLast]
  refine ⟨⟨cached, aligned, fun bucket isBucket => (ready bucket isBucket).2,
    fun bucket isBucket => (ready bucket isBucket).1,
    fun bucket isBucket => (each bucket (among bucket isBucket)).1,
    fun bucket isBucket => (each bucket (among bucket isBucket)).2.1⟩, ?_⟩
  rw [← isLast]
  exact (each _ (among _ (List.getLast_mem nonempty))).2.2

/-- **The buckets that are read from the cache.** -/
theorem cacheReady_spec {state : ReadState} {zones : String → Zone} {resolution : Resolution}
    {timezone : String} {fromTs toTs : Int} {buckets : List CacheBucket}
    (ready : cacheReady state zones resolution timezone fromTs toTs = some buckets) :
    ∃ first rest, buckets = first :: rest ∧
      CachedWindow state zones resolution timezone buckets first.fromTs
        ((first :: rest).getLast (List.cons_ne_nil _ _)).toTs ∧
      ((first :: rest).getLast (List.cons_ne_nil _ _)).toTs ≤ toTs := by
  unfold cacheReady at ready
  split at ready
  case isFalse => cases ready
  case isTrue =>
    cases planned : timezoneCacheBuckets resolution (zones timezone) fromTs toTs with
    | none =>
      rw [planned] at ready
      cases ready
    | some expected =>
      cases recorded : state.watermark with
      | none =>
        rw [planned, recorded] at ready
        cases ready
      | some watermark =>
        rw [planned, recorded] at ready
        cases expected with
        | nil => cases ready
        | cons first rest =>
          dsimp only [List.head?_cons] at ready
          rw [List.getLast?_eq_some_getLast (List.cons_ne_nil first rest)] at ready
          dsimp only at ready
          split at ready
          · cases ready
          · next nonempty =>
            have isPrefix := (Option.some.inj ready).symm
            rw [← isPrefix] at nonempty
            obtain ⟨window, within⟩ := cachedWindow_of_planned planned recorded isPrefix nonempty
            rw [List.takeWhile_cons] at isPrefix
            split at isPrefix
            · subst isPrefix
              exact ⟨first, _, rfl, window, within⟩
            · exact absurd isPrefix nonempty

/-! ### Sums over a plan -/

section Sums

variable (state : ReadState) (column : Column) (keep : Dimensions → Bool)

def rangeSum (kind : SegmentKind) (fromTs toTs : Int) : Int :=
  sumWithin (SourceRow.value column) SourceRow.ts (fun row => keep row.dimensions) (kind.table state)
    fromTs toTs

theorem querySum_rows (segment : Segment) : querySum column keep (segment.rows state)
    = rangeSum state column keep segment.kind segment.fromTs segment.toTs := by
  rw [querySum, Segment.rows, sumOf_filter, rangeSum, sumWithin]
  refine sumOf_congr _ fun row _ => Bool.eq_iff_iff.mpr ?_
  simp only [Bool.and_eq_true, decide_eq_true_eq]

theorem querySum_append (first second : List SourceRow) : querySum column keep (first ++ second)
    = querySum column keep first + querySum column keep second := by
  rw [querySum, sumOf, List.filter_append, List.map_append, List.sum_append]
  rfl

theorem querySum_plan (segments : List Segment) :
    querySum column keep (segments.flatMap (Segment.rows state)) = (segments.map fun segment =>
      rangeSum state column keep segment.kind segment.fromTs segment.toTs).sum := by
  induction segments with
  | nil => rfl
  | cons segment rest ih =>
    rw [List.flatMap_cons, querySum_append, ih, querySum_rows, List.map_cons, List.sum_cons]

variable {state} {zones : String → Zone} (faithful : state.Faithful zones)

include faithful

theorem rangeSum_rollup {fromTs toTs : Int} (clean : CleanBuckets state fromTs toTs) :
    rangeSum state column keep .rollup fromTs toTs = rangeSum state column keep .raw fromTs toTs := by
  obtain ⟨watermark, recorded, below, unmarked⟩ := clean.clean
  refine sumWithin_rollup column keep clean.starts clean.ends fun quarter lower upper => ?_
  exact faithful.rollup watermark recorded quarter
    (Int.lt_of_mul_lt_mul_right (upper.trans_le below) fifteenMinutesMs_pos.le)
    fun marked => unmarked quarter marked ⟨lower, upper⟩

/-- **A range read from the rollup and the raw events has the sums of its events.** -/
theorem querySum_exact (fromTs toTs : Int) :
    querySum column keep ((exactTimeseriesSource state fromTs toTs).flatMap (Segment.rows state))
      = rangeSum state column keep .raw fromTs toTs := by
  rw [querySum_plan]
  have each : ((exactTimeseriesSource state fromTs toTs).map fun segment =>
        rangeSum state column keep segment.kind segment.fromTs segment.toTs)
      = ((exactTimeseriesSource state fromTs toTs).map Segment.piece).map fun piece =>
          rangeSum state column keep .raw piece.1 piece.2 := by
    rw [List.map_map]
    refine List.map_congr_left fun segment among => ?_
    rcases exactTimeseriesSource_clean among with isRaw | ⟨isRollup, clean⟩
    · rw [isRaw]
      rfl
    · rw [isRollup]
      exact rangeSum_rollup column keep faithful clean
  rcases le_or_gt fromTs toTs with ordered | empty
  · rw [each]
    exact (exactTimeseriesSource_follow state ordered).sumWithin _ _ _ _
  · rw [exactTimeseriesSource_of_empty state empty.le, List.map_singleton, List.sum_singleton]

/-- The cached rows of a time zone and resolution in a window that start at none of its buckets. -/
def strayRows (state : ReadState) (resolution : Resolution) (timezone : String)
    (buckets : List CacheBucket) (cacheFrom cacheTo : Int) : List SourceRow :=
  ((finalCache state.cache).filter fun row => row.key.resolution = resolution ∧
    row.key.timezone = timezone ∧ cacheFrom ≤ row.key.bucket ∧ row.key.bucket < cacheTo ∧
    row.key.bucket ∉ buckets.map CacheBucket.fromTs).map cacheRow

theorem sumOf_buckets {resolution : Resolution} {timezone : String} {buckets : List CacheBucket}
    {cacheFrom cacheTo : Int}
    (window : CachedWindow state zones resolution timezone buckets cacheFrom cacheTo) :
    sumOf (fun row => (cacheRow row).value column)
        (fun row => (row.key ∈ buckets.map fun bucket => ⟨resolution, timezone, bucket.fromTs⟩ : Bool)
          && keep row.dimensions) (finalCache state.cache)
      = rangeSum state column keep .raw cacheFrom cacheTo := by
  have distinct : (buckets.map fun bucket =>
      (⟨resolution, timezone, bucket.fromTs⟩ : BucketKey)).Nodup := by
    refine List.Nodup.of_map BucketKey.bucket ?_
    rw [List.map_map]
    exact window.distinct
  have each : (buckets.map fun bucket => (⟨resolution, timezone, bucket.fromTs⟩ : BucketKey)).map
        (fun key => sumOf (fun row => (cacheRow row).value column) (fun row => row.key = key)
          ((finalCache state.cache).filter fun row => keep row.dimensions))
      = (buckets.map CacheBucket.piece).map fun piece =>
          rangeSum state column keep .rollup piece.1 piece.2 := by
    rw [List.map_map, List.map_map]
    refine List.map_congr_left fun bucket among => ?_
    obtain ⟨covered, finished⟩ := window.covered bucket among
    have same := faithful.cache _ _ covered finished (window.ends bucket among)
      (window.ready bucket among)
    refine Eq.trans ?_ (sumOf_cacheBucket column keep same)
    rw [Function.comp_apply, sumOf_filter]
    exact sumOf_congr _ fun row _ => Bool.and_comm _ _
  rw [← sumOf_filter, ← sum_groups _ TimezoneRow.key distinct, each]
  refine (window.tiles.sumWithin _ _ _ _).trans ?_
  refine sumWithin_rollup column keep window.starts window.aligned fun quarter lower upper => ?_
  obtain ⟨watermark, recorded, below, unmarked⟩ := window.clean lower upper
  exact faithful.rollup watermark recorded quarter below unmarked

/-- **A cached window has the sums of its events, and those of the stray rows in it.** -/
theorem rangeSum_cache {resolution : Resolution} {timezone : String} {buckets : List CacheBucket}
    {cacheFrom cacheTo : Int}
    (window : CachedWindow state zones resolution timezone buckets cacheFrom cacheTo) :
    rangeSum state column keep (.cache resolution timezone) cacheFrom cacheTo
      = rangeSum state column keep .raw cacheFrom cacheTo
        + querySum column keep (strayRows state resolution timezone buckets cacheFrom cacheTo) := by
  rw [← sumOf_buckets column keep faithful window, querySum, strayRows, sumOf_map, sumOf_filter,
    ← sumOf_or, rangeSum, sumWithin, SegmentKind.table, sumOf_map, sumOf_filter]
  · refine sumOf_congr _ fun row _ => Bool.eq_iff_iff.mpr ?_
    simp only [Bool.and_eq_true, Bool.or_eq_true, decide_eq_true_eq, List.mem_map]
    constructor
    · rintro ⟨⟨kept, lower, upper⟩, rfl, rfl⟩
      by_cases own : ∃ bucket ∈ buckets, bucket.fromTs = row.key.bucket
      · obtain ⟨bucket, among, same⟩ := own
        exact Or.inl ⟨⟨bucket, among, by rw [same]⟩, kept⟩
      · exact Or.inr ⟨kept, rfl, rfl, lower, upper, own⟩
    · rintro (⟨⟨bucket, among, own⟩, kept⟩ | ⟨kept, rfl, rfl, lower, upper, -⟩)
      · have within : cacheFrom ≤ row.key.bucket ∧ row.key.bucket < cacheTo := by
          rw [← own]
          exact window.within among
        exact ⟨⟨kept, within⟩, by rw [← own], by rw [← own]⟩
      · exact ⟨⟨kept, lower, upper⟩, rfl, rfl⟩
  · rintro row - ⟨own, stray⟩
    simp only [Bool.and_eq_true, decide_eq_true_eq, List.mem_map] at own stray
    obtain ⟨⟨bucket, among, same⟩, -⟩ := own
    exact stray.2.2.2.2.2 ⟨bucket, among, congrArg BucketKey.bucket same⟩

end Sums

/-! ### Hybrid reads -/

section Hybrid

variable (state : ReadState) (canonicalTimezoneId : String → Option String) (zones : String → Zone)
  (bucket : Option TimeBucket) (timezone : String) (fromTs toTs : Int)

/-- The plan covers the range, each table is read where it may be, and every sum is that over the
raw events of the range. -/
structure ReadsExactly : Prop where
  /-- Each segment ends before the later ones start, so no two have an instant in common. -/
  ordered : (resolveTimeseriesSource state canonicalTimezoneId zones bucket timezone fromTs
    toTs).Pairwise fun earlier later => earlier.toTs ≤ later.fromTs
  covers : ∀ instant, (∃ segment ∈ resolveTimeseriesSource state canonicalTimezoneId zones bucket
    timezone fromTs toTs, segment.fromTs ≤ instant ∧ instant < segment.toTs) ↔
      fromTs ≤ instant ∧ instant < toTs
  rollup : ∀ segment ∈ resolveTimeseriesSource state canonicalTimezoneId zones bucket timezone fromTs
    toTs, segment.kind = .rollup → CleanBuckets state segment.fromTs segment.toTs
  cache : ∀ segment ∈ resolveTimeseriesSource state canonicalTimezoneId zones bucket timezone fromTs
    toTs, ∀ resolution canonical, segment.kind = .cache resolution canonical →
      ∃ buckets, CachedWindow state zones resolution canonical buckets segment.fromTs segment.toTs
  sums : ∀ column keep, querySum column keep ((resolveTimeseriesSource state canonicalTimezoneId zones
    bucket timezone fromTs toTs).flatMap (Segment.rows state))
      = rangeSum state column keep .raw fromTs toTs

/-- The cached rows in the cached window of a plan that start at none of its buckets. -/
def strays : List SourceRow :=
  match cachedBuckets state canonicalTimezoneId zones bucket timezone fromTs toTs with
  | some (resolution, canonical, first :: rest) =>
    strayRows state resolution canonical (first :: rest) first.fromTs
      ((first :: rest).getLast (List.cons_ne_nil _ _)).toTs
  | _ => []

/-- The cached window starts in the range, and the stray rows in it add nothing. -/
structure NothingStray : Prop where
  starts : ∀ resolution canonical first rest, cachedBuckets state canonicalTimezoneId zones bucket
    timezone fromTs toTs = some (resolution, canonical, first :: rest) → fromTs ≤ first.fromTs
  strays : ∀ column keep, querySum column keep
    (strays state canonicalTimezoneId zones bucket timezone fromTs toTs) = 0

variable {state canonicalTimezoneId zones bucket timezone fromTs toTs}

theorem cachedBuckets_cases :
    (resolveTimeseriesSource state canonicalTimezoneId zones bucket timezone fromTs toTs
        = exactTimeseriesSource state fromTs toTs ∧
      NothingStray state canonicalTimezoneId zones bucket timezone fromTs toTs) ∨
    ∃ resolution canonical first rest cacheTo,
      cachedBuckets state canonicalTimezoneId zones bucket timezone fromTs toTs
        = some (resolution, canonical, first :: rest) ∧
      resolveTimeseriesSource state canonicalTimezoneId zones bucket timezone fromTs toTs
        = aroundCache state resolution canonical fromTs toTs first.fromTs cacheTo ∧
      strays state canonicalTimezoneId zones bucket timezone fromTs toTs
        = strayRows state resolution canonical (first :: rest) first.fromTs cacheTo ∧
      CachedWindow state zones resolution canonical (first :: rest) first.fromTs cacheTo ∧
      cacheTo ≤ toTs := by
  unfold resolveTimeseriesSource
  cases found : cachedBuckets state canonicalTimezoneId zones bucket timezone fromTs toTs with
  | none =>
    refine Or.inl ⟨rfl, fun resolution canonical first rest cached => ?_, fun column keep => ?_⟩
    · rw [found] at cached
      cases cached
    · rw [strays, found]
      rfl
  | some plan =>
    obtain ⟨resolution, canonical, buckets⟩ := plan
    obtain ⟨name, -, planned⟩ := Option.bind_eq_some_iff.mp found
    obtain ⟨size, -, planned⟩ := Option.bind_eq_some_iff.mp planned
    obtain ⟨list, ready, same⟩ := Option.bind_eq_some_iff.mp planned
    cases same
    obtain ⟨first, rest, rfl, window, within⟩ := cacheReady_spec ready
    refine Or.inr ⟨resolution, canonical, first, rest, _, rfl, rfl, ?_, window, within⟩
    rw [strays, found]

theorem querySum_beside (column : Column) (keep : Dimensions → Bool)
    (faithful : state.Faithful zones) (ordered : fromTs ≤ toTs) :
    querySum column keep ((if fromTs < toTs then exactTimeseriesSource state fromTs toTs
        else []).flatMap (Segment.rows state))
      = rangeSum state column keep .raw fromTs toTs := by
  split
  · exact querySum_exact column keep faithful fromTs toTs
  · next empty =>
    have same : fromTs = toTs := le_antisymm ordered (not_lt.mp empty)
    rw [same, rangeSum, sumWithin_self]
    rfl

theorem beside_follow (ordered : fromTs ≤ toTs) : Follow fromTs
    (if fromTs < toTs then exactTimeseriesSource state fromTs toTs else []) toTs := by
  split
  · exact exactTimeseriesSource_follow state ordered
  · next empty =>
    have same : fromTs = toTs := le_antisymm ordered (not_lt.mp empty)
    rw [same]
    exact .nil toTs

theorem Follow.spec {segments : List Segment} (follow : Follow fromTs segments toTs) :
    (segments.Pairwise fun earlier later => earlier.toTs ≤ later.fromTs) ∧
      ∀ instant, (∃ segment ∈ segments, segment.fromTs ≤ instant ∧ instant < segment.toTs) ↔
        fromTs ≤ instant ∧ instant < toTs := by
  refine ⟨List.pairwise_map.mp follow.ordered, fun instant => ?_⟩
  rw [← follow.covers instant]
  constructor
  · rintro ⟨segment, among, inside⟩
    exact ⟨segment.piece, List.mem_map_of_mem among, inside⟩
  · rintro ⟨piece, among, inside⟩
    obtain ⟨segment, isSegment, rfl⟩ := List.mem_map.mp among
    exact ⟨segment, isSegment, inside⟩

theorem readsExactly_exact (faithful : state.Faithful zones)
    (plan : resolveTimeseriesSource state canonicalTimezoneId zones bucket timezone fromTs toTs
      = exactTimeseriesSource state fromTs toTs) :
    ReadsExactly state canonicalTimezoneId zones bucket timezone fromTs toTs := by
  have spec : ((exactTimeseriesSource state fromTs toTs).Pairwise fun earlier later =>
      earlier.toTs ≤ later.fromTs) ∧ ∀ instant, (∃ segment ∈ exactTimeseriesSource state fromTs toTs,
        segment.fromTs ≤ instant ∧ instant < segment.toTs) ↔ fromTs ≤ instant ∧ instant < toTs := by
    rcases le_or_gt fromTs toTs with ordered | empty
    · exact (exactTimeseriesSource_follow state ordered).spec
    · rw [exactTimeseriesSource_of_empty state empty.le]
      exact ⟨List.pairwise_singleton _ _, fun instant => by simp⟩
  constructor
  · rw [plan]
    exact spec.1
  · rw [plan]
    exact spec.2
  · rw [plan]
    intro segment among isRollup
    rcases exactTimeseriesSource_clean among with isRaw | ⟨-, clean⟩
    · rw [isRaw] at isRollup
      cases isRollup
    · exact clean
  · rw [plan]
    intro segment among resolution canonical isCache
    rcases exactTimeseriesSource_clean among with isRaw | ⟨isRollup, -⟩
    · rw [isRaw] at isCache
      cases isCache
    · rw [isRollup] at isCache
      cases isCache
  · rw [plan]
    exact fun column keep => querySum_exact column keep faithful fromTs toTs

theorem mem_aroundCache {resolution : Resolution} {canonical : String} {cacheFrom cacheTo : Int}
    {segment : Segment}
    (among : segment ∈ aroundCache state resolution canonical fromTs toTs cacheFrom cacheTo) :
    segment.kind = .raw ∨
      (segment.kind = .rollup ∧ CleanBuckets state segment.fromTs segment.toTs) ∨
      segment = ⟨.cache resolution canonical, cacheFrom, cacheTo⟩ := by
  have beside : ∀ {condition : Prop} [Decidable condition] {a b : Int},
      segment ∈ (if condition then exactTimeseriesSource state a b else []) →
      segment.kind = .raw ∨
        (segment.kind = .rollup ∧ CleanBuckets state segment.fromTs segment.toTs) := by
    intro condition _ a b inside
    split at inside
    · exact exactTimeseriesSource_clean inside
    · cases inside
  rcases List.mem_append.mp among with front | after
  · rcases List.mem_append.mp front with before | single
    · exact (beside before).imp_right Or.inl
    · exact Or.inr (Or.inr (List.mem_singleton.mp single))
  · exact (beside after).imp_right Or.inl

/-- **Hybrid reads equal raw reads** exactly if the cached window starts in the range and the stray
rows in it add nothing. -/
theorem hybrid_reads_iff (faithful : state.Faithful zones) :
    ReadsExactly state canonicalTimezoneId zones bucket timezone fromTs toTs ↔
      NothingStray state canonicalTimezoneId zones bucket timezone fromTs toTs := by
  rcases @cachedBuckets_cases state canonicalTimezoneId zones bucket timezone fromTs toTs with
    ⟨plan, nothing⟩ | ⟨resolution, canonical, first, rest, cacheTo, cached, plan, stray, window,
      within⟩
  · exact ⟨fun _ => nothing, fun _ => readsExactly_exact faithful plan⟩
  have wide : first.fromTs < cacheTo := (window.within List.mem_cons_self).2
  -- Where the window starts in the range, the sums differ by those of the stray rows.
  have sums : fromTs ≤ first.fromTs → ∀ column keep,
      querySum column keep ((resolveTimeseriesSource state canonicalTimezoneId zones bucket timezone
        fromTs toTs).flatMap (Segment.rows state))
      = rangeSum state column keep .raw fromTs toTs + querySum column keep
          (strays state canonicalTimezoneId zones bucket timezone fromTs toTs) := by
    intro starts column keep
    rw [plan, stray, aroundCache, List.flatMap_append, List.flatMap_append, querySum_append,
      querySum_append, querySum_beside column keep faithful starts,
      querySum_beside column keep faithful within, List.flatMap_singleton, querySum_rows,
      rangeSum_cache column keep faithful window]
    have parts : rangeSum state column keep .raw fromTs toTs
        = rangeSum state column keep .raw fromTs first.fromTs
          + (rangeSum state column keep .raw first.fromTs cacheTo
            + rangeSum state column keep .raw cacheTo toTs) := by
      unfold rangeSum
      rw [← sumWithin_append _ _ _ _ wide.le within,
        ← sumWithin_append _ _ _ _ starts (wide.le.trans within)]
    rw [parts]
    omega
  constructor
  · intro exactly
    have starts : fromTs ≤ first.fromTs := by
      refine ((exactly.covers first.fromTs).mp ⟨⟨.cache resolution canonical, first.fromTs, cacheTo⟩,
        ?_, le_rfl, wide⟩).1
      rw [plan]
      exact List.mem_append_left _ (List.mem_append_right _ List.mem_cons_self)
    refine ⟨fun _ _ other _ found => ?_, fun column keep => ?_⟩
    · rw [cached] at found
      cases found
      exact starts
    · have same := exactly.sums column keep
      rw [sums starts] at same
      omega
  · intro nothing
    have starts := nothing.starts _ _ _ _ cached
    have follow : Follow fromTs
        (aroundCache state resolution canonical fromTs toTs first.fromTs cacheTo) toTs := by
      unfold Follow aroundCache
      rw [List.map_append, List.map_append]
      exact ((beside_follow starts).append (.single wide.le)).append (beside_follow within)
    obtain ⟨ordered, covers⟩ := follow.spec
    rw [← plan] at ordered covers
    refine ⟨ordered, covers, ?_, ?_, fun column keep => ?_⟩
    · rw [plan]
      intro segment among isRollup
      rcases mem_aroundCache among with isRaw | ⟨-, clean⟩ | rfl
      · rw [isRaw] at isRollup
        cases isRollup
      · exact clean
      · cases isRollup
    · rw [plan]
      intro segment among size name isCache
      rcases mem_aroundCache among with isRaw | ⟨isRollup, -⟩ | rfl
      · rw [isRaw] at isCache
        cases isCache
      · rw [isRollup] at isCache
        cases isCache
      · cases isCache
        exact ⟨first :: rest, window⟩
    · rw [sums starts, nothing.strays, add_zero]

end Hybrid

/-! ### A stray hour -/

/-- An event on Lord Howe Island, an hour and ten minutes after the clock went back. -/
def eventAfterShift : UsageRow where
  dedupKey := "key"
  providerKey := "codex"
  userId := "user"
  teamId := ""
  sessionId := ""
  model := ""
  ts := 1972576 * fifteenMinutesMs + 600000
  inputTokens := 7
  outputTokens := 0
  cacheReadTokens := 0
  cacheCreationTokens := 0
  costUsd := 0
  pricingRevisionId := ""
  costStatus := .unpriced
  costCalculationVersion := "cost-v2"
  cacheCreation1hTokens := none
  isFast := none
  logAdapter := ""
  host := ""

/-- The hour of the plan that starts at the shift, and the local hour that the event is in. -/
def plannedHour : BucketKey := ⟨.hour, "Australia/Lord_Howe", 1972572 * fifteenMinutesMs⟩

def localHour : BucketKey := ⟨.hour, "Australia/Lord_Howe", 1972574 * fifteenMinutesMs⟩

def rollupAfterShift : List RollupRow := aggregateRollupBuckets [eventAfterShift] [1972576] 0

/-- A state in which some hours are covered, with the cached rows of the local hour or without. -/
def afterShift (covered : List BucketKey) (cache : List TimezoneRow) : ReadState where
  read15mV2 := true
  readTimezone := true
  validated := ["Australia/Lord_Howe"]
  watermark := some 1972580
  dirty := []
  jobs := fun _ => none
  coverage := fun key => key ∈ covered
  raw := [eventAfterShift]
  rollup := rollupAfterShift
  cache := cache

theorem rollupTotals_of_all {raw : List UsageRow} {buckets : List Int} (version : Int)
    (all : ∀ row ∈ raw, row.bucket ∈ buckets) (quarter : Int) :
    rollupTotals (aggregateRollupBuckets raw buckets version) quarter = aggregate raw quarter := by
  by_cases among : quarter ∈ buckets
  · exact rollupTotals_aggregateRollupBuckets raw version among
  · funext dimensions
    have noEvent : ∀ row ∈ raw, row.group ≠ (quarter, dimensions) := by
      intro row isRow same
      have bucket : row.bucket = quarter := congrArg Prod.fst same
      exact among (bucket ▸ all row isRow)
    have noRow : ∀ row ∈ aggregateRollupBuckets raw buckets version,
        row.group ≠ (quarter, dimensions) := by
      intro row isRow same
      have bucket : row.bucket = quarter := congrArg Prod.fst same
      exact among (bucket ▸ (mem_aggregateRollupBuckets isRow).2)
    rw [aggregate_eq_none.mpr noEvent, rollupTotals, (lookup_eq_none _ _).mpr noRow]
    rfl

theorem plannedHour_faithful {cache : List TimezoneRow} (none : ∀ row ∈ cache, row.key ≠ plannedHour) :
    cacheTotals cache plannedHour
      = timezoneAggregate rollupAfterShift plannedHour.bucket (plannedHour.bucket + hourMs) := by
  have empty : windowRows rollupAfterShift plannedHour.bucket (plannedHour.bucket + hourMs) = [] := by
    decide
  funext dimensions
  have absent : ∀ row ∈ cache, row.group ≠ (plannedHour, dimensions) := fun row among same =>
    none row among (congrArg Prod.fst same)
  rw [cacheTotals, (lookup_eq_none _ _).mpr absent, timezoneAggregate, empty]
  rfl

theorem localHour_selects (quarter : Int) (lower : localHour.bucket ≤ quarter * fifteenMinutesMs)
    (upper : quarter * fifteenMinutesMs < localHour.bucket + hourMs) :
    selectsQuarter (fun _ _ instant => startOfHour lordHowe instant) localHour
      (localHour.bucket + hourMs) quarter = true := by
  refine decide_eq_true ⟨lower, upper, (startOfHour_eq_iff lower upper).mpr ?_⟩
  have shifted : ¬ quarter < 1972572 := by
    simp only [localHour, fifteenMinutesMs] at lower
    omega
  rw [Zone.offset, Int.mul_ediv_cancel _ fifteenMinutesMs_pos.ne', lordHowe]
  dsimp only
  rw [if_neg shifted]
  decide

/-- Without the local hour in the cache, an hour and a half from the shift on is read exactly. -/
theorem hybrid_reads_afterShift : ReadsExactly (afterShift [plannedHour] []) some (fun _ => lordHowe)
    (some .hour) "Australia/Lord_Howe" (1972572 * fifteenMinutesMs) (1972578 * fifteenMinutesMs) := by
  have faithful : (afterShift [plannedHour] []).Faithful fun _ => lordHowe := by
    refine ⟨fun _ _ quarter _ _ => rollupTotals_of_all 0 (by decide) quarter,
      fun key toTs covered _ ends _ => ?_⟩
    rw [List.mem_singleton.mp (of_decide_eq_true covered)] at ends ⊢
    cases ends
    exact plannedHour_faithful fun row none => (nomatch none)
  refine (hybrid_reads_iff faithful).mpr ⟨fun resolution canonical first rest cached => ?_,
    fun column keep => ?_⟩
  · have planned : cachedBuckets (afterShift [plannedHour] []) some (fun _ => lordHowe) (some .hour)
        "Australia/Lord_Howe" (1972572 * fifteenMinutesMs) (1972578 * fifteenMinutesMs)
        = some (.hour, "Australia/Lord_Howe", [⟨1972572 * fifteenMinutesMs,
            1972576 * fifteenMinutesMs⟩]) := by decide +kernel
    rw [planned] at cached
    cases cached
    exact le_rfl
  · have nothing : strays (afterShift [plannedHour] []) some (fun _ => lordHowe) (some .hour)
        "Australia/Lord_Howe" (1972572 * fifteenMinutesMs) (1972578 * fifteenMinutesMs) = [] := by
      decide +kernel
    rw [nothing]
    rfl

/-- **An hour that starts at half past is read beside those of the plan.** The event is in the local
hour, which starts in the cached window, and it is read again after the window. -/
theorem stray_hours_count_twice : ¬ ∀ (state : ReadState)
    (canonicalTimezoneId : String → Option String) (zones : String → Zone)
    (bucket : Option TimeBucket) (timezone : String) (fromTs toTs : Int), state.Faithful zones →
    ReadsExactly state canonicalTimezoneId zones bucket timezone fromTs toTs := by
  intro claimed
  let cached := compactedRows (fun _ _ instant => startOfHour lordHowe instant) rollupAfterShift
    localHour (localHour.bucket + hourMs) 0
  have faithful : (afterShift [plannedHour, localHour] cached).Faithful fun _ => lordHowe := by
    refine ⟨fun _ _ quarter _ _ => rollupTotals_of_all 0 (by decide) quarter,
      fun key toTs covered _ ends _ => ?_⟩
    rcases List.mem_cons.mp (of_decide_eq_true covered) with rfl | isLocal
    · cases ends
      refine plannedHour_faithful fun row among same => ?_
      rw [(mem_compactedRows among).1] at same
      exact absurd same (by decide)
    · rw [List.mem_singleton.mp isLocal] at ends ⊢
      cases ends
      exact cacheTotals_compactedRows localHour_selects rollupAfterShift 0
  have sums := (claimed _ some _ (some .hour) "Australia/Lord_Howe" (1972572 * fifteenMinutesMs)
    (1972578 * fifteenMinutesMs) faithful).sums .eventCount fun _ => true
  exact absurd sums (by decide +kernel)

end Toard.Timezone
