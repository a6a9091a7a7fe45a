/-
**What the base compaction does to the windows of time zones.**

A job of a time zone reads the rollup in a window below the watermark in which no quarter is marked.
Whatever flushes, repairs and the compactor do, the rows of such a window stay, and a window loses
its last mark only in the transaction that invalidates the jobs of the quarters it rewrote.

* **`base_step`**: it is kept by each step, and the step leaves the windows as said.
-/

import Toard.Timezone.Cache

namespace Toard.Timezone

open Toard.Library (filter_merged)
open Toard.Storage (fifteenMinutesMs RollupRow Compactor)

/-! ### Windows -/

def Below (store : Storage.State) (toTs : Int) : Prop :=
  ∃ watermark, store.watermark = some watermark ∧ toTs ≤ watermark * fifteenMinutesMs

def InWindow (fromTs toTs quarter : Int) : Prop :=
  fromTs ≤ quarter * fifteenMinutesMs ∧ quarter * fifteenMinutesMs < toTs

instance (fromTs toTs quarter : Int) : Decidable (InWindow fromTs toTs quarter) := by
  unfold InWindow
  infer_instance

def Clean (store : Storage.State) (fromTs toTs : Int) : Prop :=
  ∀ quarter ∈ store.dirty, ¬ InWindow fromTs toTs quarter

instance (store : Storage.State) (fromTs toTs : Int) : Decidable (Clean store fromTs toTs) := by
  unfold Clean
  infer_instance

theorem baseReady_iff {store : Storage.State} {fromTs toTs : Int} :
    baseReady store.watermark store.dirty fromTs toTs = true ↔
      Below store toTs ∧ Clean store fromTs toTs := by
  simp only [baseReady, decide_eq_true_eq, Option.any_eq_true, Below, Clean, InWindow]

theorem windowRows_eq (rollup : List RollupRow) (fromTs toTs : Int) :
    windowRows rollup fromTs toTs
      = finalRollup (rollup.filter fun row => InWindow fromTs toTs row.bucket) :=
  filter_merged RollupRow.group RollupRow.version
    (fun group => decide (InWindow fromTs toTs group.1)) rollup

theorem timezoneAggregate_congr {rollup rollup' : List RollupRow} {fromTs toTs : Int}
    (same : (rollup'.filter fun row => InWindow fromTs toTs row.bucket)
      = rollup.filter fun row => InWindow fromTs toTs row.bucket) :
    timezoneAggregate rollup' fromTs toTs = timezoneAggregate rollup fromTs toTs := by
  funext dimensions
  rw [timezoneAggregate, timezoneAggregate, windowRows_eq, windowRows_eq, same]

/-! ### The run at work -/

/-- What holds of the compactor run at work, in whatever order the steps come. -/
structure BaseRun (store : Storage.State) : Prop where
  watermark : ∀ run, store.compactor = some run →
    ∀ watermark, store.watermark = some watermark → watermark ≤ run.watermark
  marked : ∀ run, store.compactor = some run → ∀ quarter ∈ run.dirtyRows, quarter ∈ store.dirty
  rows : ∀ run, store.compactor = some run → run.hasRead → ∀ row ∈ run.rows, row.bucket ∈ run.buckets

/-- What a step does to the windows, if it rewrote some quarters in a transaction of its own. -/
structure Rebuilt (before after : Storage.State) (rewritten : List Int) : Prop where
  below : ∀ toTs, Below before toTs → Below after toTs
  marks : ∀ quarter ∈ before.dirty, quarter ∈ after.dirty ∨ quarter ∈ rewritten
  aggregate : ∀ fromTs toTs, Below before toTs → Clean before fromTs toTs →
    timezoneAggregate after.rollup fromTs toTs = timezoneAggregate before.rollup fromTs toTs

/-- The quarters that a step has rewritten: those of the run that commits. -/
def rewrittenBuckets (store : Storage.State) : Storage.Action → List Int
  | .commit => (store.compactor.map Compactor.buckets).getD []
  | _ => []

variable {before after : Storage.State}

theorem base_of_marks (run : BaseRun before) (compactor : after.compactor = before.compactor)
    (watermark : after.watermark = before.watermark) (rollup : after.rollup = before.rollup)
    (marks : ∀ quarter ∈ before.dirty, quarter ∈ after.dirty) :
    BaseRun after ∧ Rebuilt before after [] := by
  refine ⟨⟨?_, ?_, ?_⟩, ⟨?_, fun quarter among => Or.inl (marks quarter among), ?_⟩⟩
  · rw [compactor, watermark]
    exact run.watermark
  · rw [compactor]
    exact fun atWork isRun quarter among => marks quarter (run.marked atWork isRun quarter among)
  · rw [compactor]
    exact run.rows
  · intro toTs
    simp only [Below, watermark]
    exact id
  · intro fromTs toTs _ _
    rw [rollup]

theorem base_of_idle {watermark : Option Int}
    (recorded : ∀ old, before.watermark = some old → watermark = some old) :
    BaseRun { before with watermark := watermark, compactor := none } ∧
      Rebuilt before { before with watermark := watermark, compactor := none } [] := by
  refine ⟨⟨fun _ none => (nomatch none), fun _ none => (nomatch none), fun _ none => (nomatch none)⟩,
    ⟨?_, fun _ among => Or.inl among, fun _ _ _ _ => rfl⟩⟩
  rintro toTs ⟨old, isOld, upper⟩
  exact ⟨old, recorded old isOld, upper⟩

theorem base_of_run {run : Compactor} (base : BaseRun { before with compactor := some run }) :
    BaseRun { before with compactor := some run } ∧
      Rebuilt before { before with compactor := some run } [] :=
  ⟨base, ⟨fun _ below => below, fun _ among => Or.inl among, fun _ _ _ _ => rfl⟩⟩

/-! ### The steps of a run -/

theorem base_lock {startedAt : Int} {delayMs : Nat} {limitBuckets : Int}
    (moved : Storage.lockCompactor before startedAt delayMs limitBuckets = some after) :
    BaseRun after ∧ Rebuilt before after [] := by
  obtain ⟨-, -, run, -, isWatermark, noRows, -, phase, rfl⟩ := Storage.lockCompactor_cases moved
  refine base_of_run ⟨?_, ?_, ?_⟩
  · rintro _ ⟨⟩ watermark recorded
    rw [isWatermark]
    exact Storage.le_readOrInitWatermark recorded
  · rintro _ ⟨⟩ quarter among
    rw [noRows] at among
    cases among
  · rintro _ ⟨⟩ read
    exact absurd read (Storage.not_hasRead (Or.inl phase))

theorem base_selectDirty (base : BaseRun before)
    (moved : Storage.selectDirty before = some after) :
    BaseRun after ∧ Rebuilt before after [] := by
  obtain ⟨run, atWork, rfl | ⟨dirtyRows, marked, rfl⟩⟩ := Storage.selectDirty_cases moved
  · refine base_of_idle fun old recorded => ?_
    rw [recorded, Option.getD_some]
  · refine base_of_run ⟨?_, ?_, ?_⟩
    · rintro _ ⟨⟩
      exact base.watermark run atWork
    · rintro _ ⟨⟩
      exact marked
    · rintro _ ⟨⟩ read
      exact absurd read (Storage.not_hasRead (Or.inr rfl))

theorem base_aggregate (base : BaseRun before)
    (moved : Storage.readAggregate before = some after) :
    BaseRun after ∧ Rebuilt before after [] := by
  obtain ⟨run, atWork, -, rfl⟩ := Storage.readAggregate_cases moved
  refine base_of_run ⟨?_, ?_, ?_⟩
  · rintro _ ⟨⟩
    exact base.watermark run atWork
  · rintro _ ⟨⟩
    exact base.marked run atWork
  · rintro _ ⟨⟩ - row among
    exact (Storage.mem_aggregateRollupBuckets among).2

theorem base_empty (base : BaseRun before)
    (moved : Storage.deleteRollupBuckets before = some after) :
    BaseRun after ∧ Rebuilt before after [] := by
  obtain ⟨run, atWork, phase, rfl⟩ := Storage.deleteRollupBuckets_cases moved
  refine ⟨⟨?_, ?_, ?_⟩, ⟨fun _ below => below, fun _ among => Or.inl among, ?_⟩⟩
  · rintro _ ⟨⟩
    exact base.watermark run atWork
  · rintro _ ⟨⟩
    exact base.marked run atWork
  · rintro _ ⟨⟩ -
    exact base.rows run atWork (Or.inl phase)
  · intro fromTs toTs _ clean
    refine timezoneAggregate_congr ?_
    rw [List.filter_filter]
    refine List.filter_congr fun row _ => Bool.eq_iff_iff.mpr ?_
    simp only [Bool.and_eq_true, decide_eq_true_eq, and_iff_left_iff_imp]
    exact fun inside deleted => clean row.bucket (base.marked run atWork _ deleted) inside

theorem base_insertRollup (base : BaseRun before)
    (moved : Storage.insertRollup before = some after) :
    BaseRun after ∧ Rebuilt before after [] := by
  obtain ⟨run, atWork, phase, rfl⟩ := Storage.insertRollup_cases moved
  refine ⟨⟨?_, ?_, ?_⟩, ⟨fun _ below => below, fun _ among => Or.inl among, ?_⟩⟩
  · rintro _ ⟨⟩
    exact base.watermark run atWork
  · rintro _ ⟨⟩
    exact base.marked run atWork
  · rintro _ ⟨⟩ -
    exact base.rows run atWork (Or.inr (Or.inl phase))
  · rintro fromTs toTs ⟨watermark, recorded, upper⟩ clean
    refine timezoneAggregate_congr ?_
    have elsewhere : (run.rows.filter fun row => InWindow fromTs toTs row.bucket) = [] := by
      refine List.filter_eq_nil_iff.mpr fun row among => ?_
      rw [decide_eq_true_eq]
      intro inside
      have rewritten := base.rows run atWork (Or.inr (Or.inl phase)) row among
      rcases List.mem_append.mp (List.mem_dedup.mp rewritten) with contiguous | marked
      · obtain ⟨offset, -, isBucket⟩ := List.mem_map.mp contiguous
        have later := base.watermark run atWork watermark recorded
        have inUpper := inside.2
        rw [← isBucket] at inUpper
        simp only [fifteenMinutesMs] at upper inUpper
        omega
      · exact clean row.bucket (base.marked run atWork _ marked) inside
    rw [List.filter_append, elsewhere, List.append_nil]

theorem base_commit (base : BaseRun before)
    (moved : Storage.commitCompactor before = some after) :
    BaseRun after ∧ Rebuilt before after (rewrittenBuckets before .commit) := by
  obtain ⟨run, atWork, -, rfl⟩ := Storage.commitCompactor_cases moved
  refine ⟨⟨fun _ none => (nomatch none), fun _ none => (nomatch none), fun _ none => (nomatch none)⟩,
    ⟨?_, ?_, fun _ _ _ _ => rfl⟩⟩
  · rintro toTs ⟨watermark, recorded, upper⟩
    have later := base.watermark run atWork watermark recorded
    refine ⟨_, rfl, ?_⟩
    rw [Compactor.newWatermark]
    simp only [fifteenMinutesMs] at upper ⊢
    omega
  · intro quarter among
    rw [rewrittenBuckets, atWork, Option.map_some, Option.getD_some]
    by_cases rewritten : quarter ∈ run.buckets
    · exact Or.inr rewritten
    · exact Or.inl (List.mem_filter.mpr ⟨among, decide_eq_true rewritten⟩)

/-- **What a step of the base rollup does to the windows**, the expiry of rows apart. -/
theorem base_step {action : Storage.Action} (base : BaseRun before)
    (retained : ∀ quarter, action ≠ .expire quarter)
    (moved : Storage.next before action = some after) :
    BaseRun after ∧ Rebuilt before after (rewrittenBuckets before action) := by
  cases action with
  | tick ms =>
    cases moved
    exact base_of_marks base rfl rfl rfl fun _ => id
  | enqueue events =>
    cases moved
    rcases Storage.enqueueUsageEvents_cases before events with same | ⟨fresh, -, same⟩
    · rw [same]
      exact base_of_marks base rfl rfl rfl fun _ => id
    · rw [same]
      exact base_of_marks base rfl rfl rfl fun _ => id
  | claim batch =>
    obtain ⟨found, -, -, rfl⟩ := Storage.claimBatch_cases moved
    exact base_of_marks base rfl rfl rfl fun _ => id
  | selectRepair request resolver =>
    rw [Storage.selectRepair_cases moved]
    exact base_of_marks base rfl rfl rfl fun _ => id
  | markRepair writer =>
    obtain ⟨generation, rows, -, rfl⟩ := Storage.markRepair_cases moved
    exact base_of_marks base rfl rfl rfl fun _ => List.mem_union_right _
  | insert writer recognised =>
    obtain ⟨found, -, -, rfl⟩ := Storage.insertRaw_cases moved
    exact base_of_marks base rfl rfl rfl fun _ => id
  | finish writer =>
    obtain ⟨found, -, -, rfl⟩ := Storage.finishWriter_cases moved
    exact base_of_marks base rfl rfl rfl fun _ => List.mem_union_right _
  | stop writer caught =>
    obtain ⟨found, -, rfl⟩ := Storage.stopWriter_cases moved
    exact base_of_marks base rfl rfl rfl fun _ => id
  | lock startedAt delayMs limitBuckets => exact base_lock moved
  | selectDirty => exact base_selectDirty base moved
  | aggregate => exact base_aggregate base moved
  | empty => exact base_empty base moved
  | insertRollup => exact base_insertRollup base moved
  | commit => exact base_commit base moved
  | abort =>
    rw [Storage.next] at moved
    split at moved
    · cases moved
      exact base_of_idle fun _ => id
    · cases moved
  | expire quarter => exact absurd rfl (retained quarter)

end Toard.Timezone
