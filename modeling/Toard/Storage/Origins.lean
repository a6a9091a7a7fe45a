/-
**Where the raw events come from.**

Each raw event, and each row that a flush or a repair is about to insert, has the key and the time
of a row of the outbox, and the outbox has one row for each key (`Origins`). So an insert replaces
a raw event only by one of the same bucket (`Origins.same_bucket`).
-/

import Toard.Library.Transition
import Toard.Storage.Steps

namespace Toard.Storage

open Toard.Library

/-! ### Rows of a batch -/

theorem flatMap_rows_modify (batches : List Batch) (index : Nat) {change : Batch → Batch}
    (same : ∀ batch, (change batch).rows = batch.rows) :
    (batches.modify index change).flatMap Batch.rows = batches.flatMap Batch.rows := by
  induction batches generalizing index with
  | nil => simp
  | cons head rest ih =>
    cases index with
    | zero => simp [same]
    | succ index => simp [ih]

theorem freshRows_distinct (known : List String) (events : List OutboxRow) :
    ((freshRows known events).map OutboxRow.dedupKey).Nodup ∧
      ∀ row ∈ freshRows known events, row.dedupKey ∉ known := by
  induction events generalizing known with
  | nil => simp [freshRows]
  | cons row rest ih =>
    rw [freshRows]
    split
    · exact ih known
    · next absent =>
      obtain ⟨distinct, unknown⟩ := ih (row.dedupKey :: known)
      refine ⟨List.nodup_cons.mpr ⟨fun among => ?_, distinct⟩, fun other among => ?_⟩
      · obtain ⟨other, otherAmong, same⟩ := List.mem_map.mp among
        exact unknown other otherAmong (same ▸ List.mem_cons_self)
      · rcases List.mem_cons.mp among with rfl | later
        · exact absent
        · exact fun inKnown => unknown other later (List.mem_cons_of_mem _ inKnown)

/-! ### Origins -/

def State.FromOutbox (s : State) (row : UsageRow) : Prop :=
  ∃ origin ∈ s.outboxRows, origin.dedupKey = row.dedupKey ∧ origin.ts = row.ts

/-- Every row has its origin in the outbox, where keys are distinct. -/
structure Origins (s : State) : Prop where
  distinct : (s.outboxRows.map OutboxRow.dedupKey).Nodup
  raw : ∀ row ∈ s.raw, s.FromOutbox row
  writers : ∀ writer ∈ s.writers, ∀ row ∈ writer.rows, s.FromOutbox row
  deduplicated : (s.raw.map UsageRow.dedupKey).Nodup

theorem Origins.initial (now : Int) : Origins (State.initial now) where
  distinct := List.nodup_nil
  raw := by simp [State.initial]
  writers := by simp [State.initial]
  deduplicated := List.nodup_nil

theorem Origins.same_bucket {s : State} (origins : Origins s) {left right : UsageRow}
    (leftFrom : s.FromOutbox left) (rightFrom : s.FromOutbox right)
    (same : left.dedupKey = right.dedupKey) : left.bucket = right.bucket := by
  obtain ⟨first, firstAmong, firstKey, firstTs⟩ := leftFrom
  obtain ⟨second, secondAmong, secondKey, secondTs⟩ := rightFrom
  have sameKey : first.dedupKey = second.dedupKey := by rw [firstKey, same, secondKey]
  have sameRow : first = second :=
    List.inj_on_of_nodup_map origins.distinct firstAmong secondAmong sameKey
  have sameTs : left.ts = right.ts := by rw [← firstTs, sameRow, secondTs]
  rw [UsageRow.bucket, sameTs, UsageRow.bucket]

theorem Origins.of_outbox {s after : State} (origins : Origins s)
    (outbox : after.outboxRows = s.outboxRows)
    (raw : ∀ row ∈ after.raw, s.FromOutbox row)
    (writers : ∀ writer ∈ after.writers, ∀ row ∈ writer.rows, s.FromOutbox row)
    (deduplicated : (after.raw.map UsageRow.dedupKey).Nodup) : Origins after where
  distinct := outbox ▸ origins.distinct
  raw row among := by
    rw [State.FromOutbox, outbox]
    exact raw row among
  writers writer among row rowAmong := by
    rw [State.FromOutbox, outbox]
    exact writers writer among row rowAmong
  deduplicated := deduplicated

theorem mem_repairReplacements {request : PricingRepairRequest}
    {resolver : UsageRow → Option ResolvedCost} {raw : List UsageRow} {row : UsageRow}
    (among : row ∈ repairReplacements request resolver raw) :
    ∃ old ∈ raw, old.dedupKey = row.dedupKey ∧ old.ts = row.ts := by
  rw [repairReplacements] at among
  split at among
  · cases among
  · obtain ⟨old, candidate, priced⟩ := List.mem_filterMap.mp among
    obtain ⟨resolved, _, rfl⟩ := Option.map_eq_some_iff.mp priced
    have sorted := List.mem_of_mem_take candidate
    rw [List.mem_insertionSort] at sorted
    exact ⟨old, (List.mem_filter.mp sorted).1, rfl, rfl⟩

theorem Origins.enqueueUsageEvents {s : State} (origins : Origins s) (events : List OutboxRow) :
    Origins (enqueueUsageEvents s events) := by
  rcases enqueueUsageEvents_cases s events with unchanged | ⟨fresh, isFresh, enqueued⟩
  · rw [unchanged]
    exact origins
  · obtain ⟨distinct, unknown⟩ :=
      freshRows_distinct (s.outboxRows.map OutboxRow.dedupKey) events
    rw [← isFresh] at distinct unknown
    rw [enqueued]
    have outbox : ({ s with batches := s.batches ++ [⟨fresh, .pending, none, false⟩] } :
        State).outboxRows = s.outboxRows ++ fresh := by
      simp [State.outboxRows]
    have grows : ∀ {row : UsageRow}, s.FromOutbox row → ({ s with
        batches := s.batches ++ [⟨fresh, .pending, none, false⟩] } : State).FromOutbox row := by
      rintro row ⟨origin, among, same⟩
      exact ⟨origin, outbox ▸ List.mem_append_left fresh among, same⟩
    refine ⟨?_, fun row among => grows (origins.raw row among),
      fun writer among row rowAmong => grows (origins.writers writer among row rowAmong),
      origins.deduplicated⟩
    rw [outbox, List.map_append, List.nodup_append]
    refine ⟨origins.distinct, distinct, fun left leftAmong right rightAmong same => ?_⟩
    obtain ⟨row, rowAmong, rfl⟩ := List.mem_map.mp rightAmong
    exact unknown row rowAmong (same ▸ leftAmong)

theorem Origins.step {s after : State} (origins : Origins s) (action : Action)
    (moved : next s action = some after) : Origins after := by
  cases action with
  | tick ms =>
    cases moved
    exact origins.of_outbox rfl origins.raw origins.writers origins.deduplicated
  | enqueue events =>
    cases moved
    exact origins.enqueueUsageEvents events
  | claim batch =>
    obtain ⟨found, here, _, rfl⟩ := claimBatch_cases moved
    refine origins.of_outbox (flatMap_rows_modify s.batches batch fun _ => rfl) origins.raw
      (fun writer among row rowAmong => ?_) origins.deduplicated
    rcases List.mem_append.mp among with old | new
    · exact origins.writers writer old row rowAmong
    · rw [List.mem_singleton] at new
      subst new
      obtain ⟨origin, originAmong, rfl⟩ := List.mem_map.mp rowAmong
      exact ⟨origin, List.mem_flatMap.mpr ⟨found, List.mem_of_getElem? here, originAmong⟩, rfl, rfl⟩
  | selectRepair request resolver =>
    rw [selectRepair_cases moved]
    refine origins.of_outbox rfl origins.raw (fun writer among row rowAmong => ?_)
      origins.deduplicated
    rcases List.mem_append.mp among with old | new
    · exact origins.writers writer old row rowAmong
    · rw [List.mem_singleton] at new
      subst new
      obtain ⟨old, oldAmong, sameKey, sameTs⟩ := mem_repairReplacements rowAmong
      obtain ⟨origin, originAmong, originKey, originTs⟩ := origins.raw old oldAmong
      exact ⟨origin, originAmong, originKey.trans sameKey, originTs.trans sameTs⟩
  | markRepair index =>
    obtain ⟨generation, rows, here, rfl⟩ := markRepair_cases moved
    refine origins.of_outbox rfl origins.raw (fun writer among row rowAmong => ?_)
      origins.deduplicated
    rcases List.mem_or_eq_of_mem_set among with old | rfl
    · exact origins.writers writer old row rowAmong
    · exact origins.writers _ (List.mem_of_getElem? here) row rowAmong
  | insert index recognised =>
    obtain ⟨writer, here, _, rfl⟩ := insertRaw_cases moved
    have own := origins.writers writer (List.mem_of_getElem? here)
    refine origins.of_outbox rfl (fun row among => ?_) (fun other among row rowAmong => ?_) ?_
    · cases recognised with
      | true => exact origins.raw row among
      | false =>
        rcases mem_replaceRows UsageRow.dedupKey among with old | new
        · exact origins.raw row old
        · exact own row new
    · rcases List.mem_or_eq_of_mem_set among with old | rfl
      · exact origins.writers other old row rowAmong
      · exact own row rowAmong
    · cases recognised with
      | true => exact origins.deduplicated
      | false => exact nodup_replaceRows UsageRow.dedupKey writer.rows origins.deduplicated
  | finish index =>
    obtain ⟨writer, _, _, rfl⟩ := finishWriter_cases moved
    refine origins.of_outbox ?_ origins.raw
      (fun other among => origins.writers other (List.mem_of_mem_eraseIdx among))
      origins.deduplicated
    cases job : writer.job with
    | flush batch => exact flatMap_rows_modify s.batches batch fun _ => rfl
    | repair generation => rfl
  | stop index caught =>
    obtain ⟨writer, _, rfl⟩ := stopWriter_cases moved
    refine origins.of_outbox ?_ origins.raw
      (fun other among => origins.writers other (List.mem_of_mem_eraseIdx among))
      origins.deduplicated
    cases job : writer.job with
    | flush batch =>
      cases caught with
      | true => exact flatMap_rows_modify s.batches batch fun _ => rfl
      | false => rfl
    | repair generation => rfl
  | lock startedAt delayMs limitBuckets =>
    obtain ⟨_, _, run, _, _, _, _, _, rfl⟩ := lockCompactor_cases moved
    exact origins.of_outbox rfl origins.raw origins.writers origins.deduplicated
  | selectDirty =>
    obtain ⟨run, _, rfl | ⟨dirtyRows, _, rfl⟩⟩ := selectDirty_cases moved
    all_goals exact origins.of_outbox rfl origins.raw origins.writers origins.deduplicated
  | aggregate =>
    obtain ⟨run, _, _, rfl⟩ := readAggregate_cases moved
    exact origins.of_outbox rfl origins.raw origins.writers origins.deduplicated
  | empty =>
    obtain ⟨run, _, _, rfl⟩ := deleteRollupBuckets_cases moved
    exact origins.of_outbox rfl origins.raw origins.writers origins.deduplicated
  | insertRollup =>
    obtain ⟨run, _, _, rfl⟩ := insertRollup_cases moved
    exact origins.of_outbox rfl origins.raw origins.writers origins.deduplicated
  | commit =>
    obtain ⟨run, _, _, rfl⟩ := commitCompactor_cases moved
    exact origins.of_outbox rfl origins.raw origins.writers origins.deduplicated
  | abort =>
    simp only [next] at moved
    split at moved
    · cases moved
      exact origins.of_outbox rfl origins.raw origins.writers origins.deduplicated
    · cases moved
  | expire bucket =>
    simp only [next] at moved
    split at moved
    · cases moved
    · cases moved
      exact origins.of_outbox rfl origins.raw origins.writers origins.deduplicated

end Toard.Storage
