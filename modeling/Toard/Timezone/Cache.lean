/-
**The sums by local hours and days.**

Reading goes through three tables: the raw events, the 15-minute rollup, and the cached sums of the
hours and days of a time zone. Whatever is read, a query adds up columns of rows with dimensions.

* **`sumWithin_rollup`**: where the rollup's buckets are the aggregates of their events, sums over
  whole buckets are those of the events.
* **`sumOf_cacheBucket`**: where the cached rows of a bucket are the aggregate of its rollup rows,
  sums over the bucket are those of the rollup.
-/

import Toard.Library.Tiling
import Toard.Storage.Consistency
import Toard.Timezone.Buckets

namespace Toard.Timezone

open Toard.Library
open Toard.Storage

/-! ### Cached rows -/

/-- A row of `usage_hourly_timezone_rollup` or `usage_daily_timezone_rollup`. -/
structure TimezoneRow where
  key : BucketKey
  dimensions : Dimensions
  totals : Totals
  version : Int
deriving DecidableEq

def TimezoneRow.group (row : TimezoneRow) : BucketKey × Dimensions := (row.key, row.dimensions)

def bucketEnd (zones : String → Zone) (key : BucketKey) : Option Int :=
  match key.resolution with
  | .hour => some (key.bucket + hourMs)
  | .day => nextTimezoneDayStart (zones key.timezone) key.bucket

/-- `usage_15m_rollup_v2 FINAL`. -/
def finalRollup (rollup : List RollupRow) : List RollupRow :=
  merged RollupRow.group RollupRow.version rollup

/-- The cached tables, `FINAL`. -/
def finalCache (cache : List TimezoneRow) : List TimezoneRow :=
  merged TimezoneRow.group TimezoneRow.version cache

def bucketStart (row : RollupRow) : Int := row.bucket * fifteenMinutesMs

def sumTotals (rows : List Totals) : Totals where
  eventCount := (rows.map Totals.eventCount).sum
  inputTokens := (rows.map Totals.inputTokens).sum
  outputTokens := (rows.map Totals.outputTokens).sum
  cacheReadTokens := (rows.map Totals.cacheReadTokens).sum
  cacheCreationTokens := (rows.map Totals.cacheCreationTokens).sum
  costUsd := (rows.map Totals.costUsd).sum

def windowRows (rollup : List RollupRow) (fromTs toTs : Int) : List RollupRow :=
  (finalRollup rollup).filter fun row => fromTs ≤ bucketStart row ∧ bucketStart row < toTs

def groupTotals (rows : List RollupRow) (dimensions : Dimensions) : Option Totals :=
  let own := rows.filter fun row => row.dimensions = dimensions
  if own = [] then none else some (sumTotals (own.map RollupRow.totals))

def timezoneAggregate (rollup : List RollupRow) (fromTs toTs : Int) (dimensions : Dimensions) :
    Option Totals :=
  groupTotals (windowRows rollup fromTs toTs) dimensions

/-- The rows that `compactTimezoneRollup` reads for a bucket: one for each group. -/
def compactedRows (startOf : Resolution → String → Int → Int) (rollup : List RollupRow)
    (key : BucketKey) (toTs version : Int) : List TimezoneRow :=
  let rows := (finalRollup rollup).filter fun row => selectsQuarter startOf key toTs row.bucket
  (rows.map RollupRow.dimensions).dedup.map fun dimensions =>
    { key := key
      dimensions := dimensions
      totals := sumTotals ((rows.filter fun row => row.dimensions = dimensions).map RollupRow.totals)
      version := version }

def cacheTotals (cache : List TimezoneRow) (key : BucketKey) (dimensions : Dimensions) :
    Option Totals :=
  (lookup TimezoneRow.group TimezoneRow.version cache (key, dimensions)).map TimezoneRow.totals

/-! ### Sums of columns -/

inductive Column where
  | eventCount
  | inputTokens
  | outputTokens
  | cacheReadTokens
  | cacheCreationTokens
  | costUsd
deriving DecidableEq

/-- What a row adds to a column; the cost is `sumIf(cost_usd, cost_status != 'unpriced')`. -/
def Column.of (column : Column) (dimensions : Dimensions) (totals : Totals) : Int :=
  match column with
  | .eventCount => totals.eventCount
  | .inputTokens => totals.inputTokens
  | .outputTokens => totals.outputTokens
  | .cacheReadTokens => totals.cacheReadTokens
  | .cacheCreationTokens => totals.cacheCreationTokens
  | .costUsd => if dimensions.costStatus = .unpriced then 0 else totals.costUsd

structure SourceRow where
  ts : Int
  dimensions : Dimensions
  totals : Totals
deriving DecidableEq

def SourceRow.value (column : Column) (row : SourceRow) : Int := column.of row.dimensions row.totals

/-- A raw event: `1 AS event_count`. -/
def rawRow (row : UsageRow) : SourceRow where
  ts := row.ts
  dimensions := row.dimensions
  totals := ⟨1, row.inputTokens, row.outputTokens, row.cacheReadTokens, row.cacheCreationTokens,
    row.costUsd⟩

def rollupRow (row : RollupRow) : SourceRow := ⟨bucketStart row, row.dimensions, row.totals⟩

def cacheRow (row : TimezoneRow) : SourceRow := ⟨row.key.bucket, row.dimensions, row.totals⟩

theorem sum_natCast (numbers : List Nat) : (numbers.sum : Int) = (numbers.map Nat.cast).sum := by
  induction numbers with
  | nil => rfl
  | cons first rest ih => simp [ih]

theorem Column.of_totals (column : Column) {rows : List UsageRow} {dimensions : Dimensions}
    (own : ∀ row ∈ rows, row.dimensions = dimensions) :
    column.of dimensions (totals rows)
      = (rows.map fun row => (rawRow row).value column).sum := by
  have sameDimensions : (rows.map fun row => (rawRow row).value column)
      = rows.map fun row => column.of dimensions (rawRow row).totals :=
    List.map_congr_left fun row among => congrArg (column.of · _) (own row among)
  rw [sameDimensions]
  cases column with
  | eventCount => simp [Column.of, totals, rawRow]
  | inputTokens | outputTokens | cacheReadTokens | cacheCreationTokens =>
    simp only [Column.of, totals, sum_natCast, List.map_map]
    rfl
  | costUsd =>
    have statuses : ∀ row ∈ rows, row.costStatus = dimensions.costStatus := fun row among =>
      congrArg Dimensions.costStatus (own row among)
    simp only [Column.of, totals]
    split
    · simp
    · next priced =>
      rw [List.filter_eq_self.mpr fun row among => decide_eq_true (statuses row among ▸ priced)]
      rfl

theorem Column.of_sumTotals (column : Column) (dimensions : Dimensions) (rows : List Totals) :
    column.of dimensions (sumTotals rows) = (rows.map (column.of dimensions)).sum := by
  cases column with
  | eventCount | inputTokens | outputTokens | cacheReadTokens | cacheCreationTokens =>
    simp only [Column.of, sumTotals, sum_natCast, List.map_map]
    rfl
  | costUsd =>
    by_cases unpriced : dimensions.costStatus = .unpriced
    · have nothing : Column.costUsd.of dimensions = fun _ => 0 := funext fun _ => if_pos unpriced
      rw [nothing]
      simp
    · have all : Column.costUsd.of dimensions = Totals.costUsd := funext fun _ => if_neg unpriced
      rw [all]
      rfl

/-! ### The rollup for the events -/

theorem rollupTotals_of_mem {rollup : List RollupRow} {row : RollupRow}
    (among : row ∈ finalRollup rollup) :
    rollupTotals rollup row.bucket row.dimensions = some row.totals := by
  rw [rollupTotals]
  exact congrArg (Option.map RollupRow.totals) ((mem_merged _ _).mp among)

theorem exists_of_rollupTotals {rollup : List RollupRow} {bucket : Int} {dimensions : Dimensions}
    {found : Totals} (isFound : rollupTotals rollup bucket dimensions = some found) :
    ∃ row ∈ finalRollup rollup, row.group = (bucket, dimensions) ∧ row.totals = found := by
  obtain ⟨row, lookedUp, rfl⟩ := Option.map_eq_some_iff.mp isFound
  have own := (key_of_lookup _ _ lookedUp).2
  exact ⟨row, (mem_merged _ _).mpr (own ▸ lookedUp), own, rfl⟩

theorem bucket_within {a b : Int} (first : fifteenMinutesMs ∣ a) (last : fifteenMinutesMs ∣ b)
    (row : UsageRow) : a ≤ row.bucket * fifteenMinutesMs ∧ row.bucket * fifteenMinutesMs < b ↔
      a ≤ row.ts ∧ row.ts < b := by
  simp only [UsageRow.bucket, fifteenMinuteBucket, fifteenMinutesMs] at *
  omega

/-- **Sums over whole buckets of the rollup are those of the events.** -/
theorem sumWithin_rollup (column : Column) (keep : Dimensions → Bool) {raw : List UsageRow}
    {rollup : List RollupRow} {a b : Int} (first : fifteenMinutesMs ∣ a)
    (last : fifteenMinutesMs ∣ b)
    (clean : ∀ quarter, a ≤ quarter * fifteenMinutesMs → quarter * fifteenMinutesMs < b →
      rollupTotals rollup quarter = aggregate raw quarter) :
    sumWithin (SourceRow.value column) SourceRow.ts (fun row => keep row.dimensions)
        ((finalRollup rollup).map rollupRow) a b
      = sumWithin (SourceRow.value column) SourceRow.ts (fun row => keep row.dimensions)
        (raw.map rawRow) a b := by
  rw [sumWithin, sumWithin, sumOf_map, sumOf_map]
  refine sumOf_of_groups UsageRow.group RollupRow.group (nodup_merged _ _ _) ?_ ?_
  · intro row among selected
    simp only [Bool.and_eq_true, decide_eq_true_eq] at selected
    have same := congrFun (clean row.bucket selected.2.1 selected.2.2) row.dimensions
    rw [rollupTotals_of_mem among, aggregate] at same
    split at same
    · cases same
    · rw [sumOf, ← @Column.of_totals column _ row.dimensions]
      · exact congrArg (column.of row.dimensions) (Option.some.inj same)
      · intro event isEvent
        exact congrArg Prod.snd (of_decide_eq_true (List.mem_filter.mp isEvent).2)
  · intro event among
    simp only [Bool.and_eq_true, decide_eq_true_eq]
    change keep event.dimensions = true ∧ a ≤ event.ts ∧ event.ts < b ↔ ∃ row ∈ finalRollup rollup,
      (keep row.dimensions = true ∧ a ≤ bucketStart row ∧ bucketStart row < b) ∧
        row.group = event.group
    rw [← bucket_within first last event]
    constructor
    · rintro ⟨kept, lower, upper⟩
      have same := congrFun (clean event.bucket lower upper) event.dimensions
      cases found : rollupTotals rollup event.bucket event.dimensions with
      | none =>
        rw [found] at same
        exact absurd rfl (aggregate_eq_none.mp same.symm event among)
      | some found' =>
        obtain ⟨row, isRow, group, -⟩ := exists_of_rollupTotals found
        have bucket : row.bucket = event.bucket := congrArg Prod.fst group
        have dimensions : row.dimensions = event.dimensions := congrArg Prod.snd group
        refine ⟨row, isRow, ⟨dimensions ▸ kept, ?_, ?_⟩, group⟩
        · rw [bucketStart, bucket]
          exact lower
        · rw [bucketStart, bucket]
          exact upper
    · rintro ⟨row, -, ⟨kept, lower, upper⟩, group⟩
      have bucket : row.bucket = event.bucket := congrArg Prod.fst group
      have dimensions : row.dimensions = event.dimensions := congrArg Prod.snd group
      rw [bucketStart, bucket] at lower upper
      exact ⟨dimensions ▸ kept, lower, upper⟩

/-! ### The cache for the rollup -/

theorem cacheTotals_of_mem {cache : List TimezoneRow} {row : TimezoneRow}
    (among : row ∈ finalCache cache) : cacheTotals cache row.key row.dimensions = some row.totals := by
  rw [cacheTotals]
  exact congrArg (Option.map TimezoneRow.totals) ((mem_merged _ _).mp among)

theorem exists_of_cacheTotals {cache : List TimezoneRow} {key : BucketKey} {dimensions : Dimensions}
    {found : Totals} (isFound : cacheTotals cache key dimensions = some found) :
    ∃ row ∈ finalCache cache, row.group = (key, dimensions) ∧ row.totals = found := by
  obtain ⟨row, lookedUp, rfl⟩ := Option.map_eq_some_iff.mp isFound
  have own := (key_of_lookup _ _ lookedUp).2
  exact ⟨row, (mem_merged _ _).mpr (own ▸ lookedUp), own, rfl⟩

theorem groupTotals_eq_none {rows : List RollupRow} {dimensions : Dimensions} :
    groupTotals rows dimensions = none ↔ ∀ row ∈ rows, row.dimensions ≠ dimensions := by
  unfold groupTotals
  simp only [ite_eq_left_iff, reduceCtorEq, imp_false, not_not, List.filter_eq_nil_iff,
    decide_eq_true_eq]

/-- **Sums over a cached bucket are those of the rollup rows in its window.** -/
theorem sumOf_cacheBucket (column : Column) (keep : Dimensions → Bool) {rollup : List RollupRow}
    {cache : List TimezoneRow} {key : BucketKey} {toTs : Int}
    (faithful : cacheTotals cache key = timezoneAggregate rollup key.bucket toTs) :
    sumOf (fun row => (cacheRow row).value column)
        (fun row => keep row.dimensions && (row.key = key : Bool)) (finalCache cache)
      = sumWithin (SourceRow.value column) SourceRow.ts (fun row => keep row.dimensions)
        ((finalRollup rollup).map rollupRow) key.bucket toTs := by
  have window : sumWithin (SourceRow.value column) SourceRow.ts (fun row => keep row.dimensions)
        ((finalRollup rollup).map rollupRow) key.bucket toTs
      = sumOf (fun row => (rollupRow row).value column) (fun row => keep row.dimensions)
          (windowRows rollup key.bucket toTs) := by
    rw [sumWithin, sumOf_map, windowRows, sumOf_filter]
    refine sumOf_congr _ fun row _ => Bool.eq_iff_iff.mpr ?_
    simp only [Bool.and_eq_true, decide_eq_true_eq]
    rfl
  rw [window]
  refine sumOf_of_groups (fun row : RollupRow => (key, row.dimensions)) TimezoneRow.group
    (nodup_merged _ _ _) ?_ ?_
  · intro row among selected
    simp only [Bool.and_eq_true, decide_eq_true_eq] at selected
    have same := congrFun faithful row.dimensions
    rw [← selected.2, cacheTotals_of_mem among, selected.2, timezoneAggregate, groupTotals] at same
    split at same
    · cases same
    · have totals := congrArg (column.of row.dimensions) (Option.some.inj same)
      rw [Column.of_sumTotals, List.map_map] at totals
      refine totals.trans ?_
      have own : sumOf (fun other => (rollupRow other).value column)
          (fun other => (key, other.dimensions) = row.group) (windowRows rollup key.bucket toTs)
        = sumOf (fun other => (rollupRow other).value column)
          (fun other => other.dimensions = row.dimensions) (windowRows rollup key.bucket toTs) := by
        refine sumOf_congr _ fun other _ => Bool.eq_iff_iff.mpr ?_
        simp only [TimezoneRow.group, selected.2, Prod.mk.injEq, true_and]
      rw [own, sumOf]
      refine congrArg List.sum (List.map_congr_left fun other among => ?_)
      rw [← of_decide_eq_true (List.mem_filter.mp among).2]
      rfl
  · intro row among
    constructor
    · intro kept
      have present : cacheTotals cache key row.dimensions ≠ none := by
        rw [faithful, timezoneAggregate]
        exact fun absent => groupTotals_eq_none.mp absent row among rfl
      obtain ⟨found, isFound⟩ := Option.ne_none_iff_exists'.mp present
      obtain ⟨cached, isCached, group, -⟩ := exists_of_cacheTotals isFound
      have own : cached.key = key := congrArg Prod.fst group
      have dimensions : cached.dimensions = row.dimensions := congrArg Prod.snd group
      refine ⟨cached, isCached, ?_, group⟩
      simp only [Bool.and_eq_true, decide_eq_true_eq]
      exact ⟨dimensions ▸ kept, own⟩
    · rintro ⟨cached, isCached, selected, same⟩
      simp only [Bool.and_eq_true, decide_eq_true_eq] at selected
      have dimensions : cached.dimensions = row.dimensions := congrArg Prod.snd same
      exact dimensions ▸ selected.1

/-! ### What the compaction writes -/

theorem mem_compactedRows {startOf : Resolution → String → Int → Int} {rollup : List RollupRow}
    {key : BucketKey} {toTs version : Int} {row : TimezoneRow}
    (among : row ∈ compactedRows startOf rollup key toTs version) :
    row.key = key ∧ row.version = version := by
  obtain ⟨dimensions, -, rfl⟩ := List.mem_map.mp among
  exact ⟨rfl, rfl⟩

theorem selected_eq_windowRows {startOf : Resolution → String → Int → Int} {key : BucketKey}
    {toTs : Int} (agrees : ∀ quarter, key.bucket ≤ quarter * fifteenMinutesMs →
      quarter * fifteenMinutesMs < toTs → selectsQuarter startOf key toTs quarter = true)
    (rollup : List RollupRow) :
    ((finalRollup rollup).filter fun row => selectsQuarter startOf key toTs row.bucket)
      = windowRows rollup key.bucket toTs := by
  refine List.filter_congr fun row _ => Bool.eq_iff_iff.mpr ?_
  constructor
  · intro selected
    obtain ⟨lower, upper, -⟩ := of_decide_eq_true selected
    exact decide_eq_true ⟨lower, upper⟩
  · intro inside
    obtain ⟨lower, upper⟩ := of_decide_eq_true inside
    exact agrees row.bucket lower upper

/-- **The compaction writes the aggregate of its window**, where its filter agrees with it. -/
theorem cacheTotals_compactedRows {startOf : Resolution → String → Int → Int} {key : BucketKey}
    {toTs : Int} (agrees : ∀ quarter, key.bucket ≤ quarter * fifteenMinutesMs →
      quarter * fifteenMinutesMs < toTs → selectsQuarter startOf key toTs quarter = true)
    (rollup : List RollupRow) (version : Int) :
    cacheTotals (compactedRows startOf rollup key toTs version) key
      = timezoneAggregate rollup key.bucket toTs := by
  funext dimensions
  unfold cacheTotals compactedRows timezoneAggregate
  rw [selected_eq_windowRows agrees]
  generalize windowRows rollup key.bucket toTs = rows
  have groups : ((rows.map RollupRow.dimensions).dedup.map (Prod.mk key)).Nodup :=
    (List.nodup_dedup _).map fun _ _ same => congrArg Prod.snd same
  have found := lookup_map TimezoneRow.group TimezoneRow.version groups
    (fun group => ⟨group.1, group.2, sumTotals ((rows.filter fun row =>
      row.dimensions = group.2).map RollupRow.totals), version⟩) (fun _ => rfl) (key, dimensions)
  rw [List.map_map] at found
  refine (congrArg (Option.map TimezoneRow.totals) found).trans ?_
  have listed : (key, dimensions) ∈ (rows.map RollupRow.dimensions).dedup.map (Prod.mk key) ↔
      ∃ row ∈ rows, row.dimensions = dimensions := by
    simp
  by_cases some : ∃ row ∈ rows, row.dimensions = dimensions
  · obtain ⟨row, among, same⟩ := some
    rw [if_pos (listed.mpr ⟨row, among, same⟩), groupTotals, if_neg]
    · rfl
    · exact fun empty => List.filter_eq_nil_iff.mp empty row among (decide_eq_true same)
  · rw [if_neg (listed.not.mpr some), groupTotals_eq_none.mpr]
    · rfl
    · exact fun row among same => some ⟨row, among, same⟩

theorem cacheTotals_append_of_ne {cache rows : List TimezoneRow} {key : BucketKey}
    (elsewhere : ∀ row ∈ rows, row.key ≠ key) : cacheTotals (cache ++ rows) key
      = cacheTotals cache key := by
  funext dimensions
  have nothing : rows.filter (fun row => row.group = (key, dimensions)) = [] :=
    List.filter_eq_nil_iff.mpr fun row among same =>
      elsewhere row among (congrArg Prod.fst (of_decide_eq_true same))
  rw [cacheTotals, lookup, List.filter_append, nothing, List.append_nil]
  rfl

theorem cacheTotals_append_of_empty {cache rows : List TimezoneRow} {key : BucketKey}
    (empty : ∀ row ∈ cache, row.key ≠ key) : cacheTotals (cache ++ rows) key
      = cacheTotals rows key := by
  funext dimensions
  have nothing : cache.filter (fun row => row.group = (key, dimensions)) = [] :=
    List.filter_eq_nil_iff.mpr fun row among same =>
      empty row among (congrArg Prod.fst (of_decide_eq_true same))
  rw [cacheTotals, lookup, List.filter_append, nothing, List.nil_append]
  rfl

theorem cacheTotals_filter_of_ne {cache : List TimezoneRow} {key other : BucketKey}
    (different : other ≠ key) :
    cacheTotals (cache.filter fun row => row.key ≠ key) other = cacheTotals cache other := by
  funext dimensions
  rw [cacheTotals, lookup_filter_of_kept]
  · rfl
  · intro row among same
    have own : row.key = other := congrArg Prod.fst same
    exact decide_eq_true (own ▸ different)

end Toard.Timezone
