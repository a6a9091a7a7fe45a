/-
**What each step of the store can do.**

One inversion lemma for each step function: its guard and the state it leaves. The proofs about
runs use these and never unfold a step.
-/

import Toard.Storage.Rollup

namespace Toard.Storage

open Toard.Library

variable {s after : State}

theorem enqueueUsageEvents_cases (s : State) (events : List OutboxRow) :
    enqueueUsageEvents s events = s ∨ ∃ fresh,
      fresh = freshRows (s.outboxRows.map OutboxRow.dedupKey) events ∧
      enqueueUsageEvents s events
        = { s with batches := s.batches ++ [⟨fresh, .pending, none, false⟩] } := by
  unfold enqueueUsageEvents
  simp only
  split
  · exact Or.inl rfl
  · exact Or.inr ⟨_, rfl, rfl⟩

theorem claimBatch_cases {batch : Nat} (moved : claimBatch s batch = some after) :
    ∃ found, s.batches[batch]? = some found ∧ found.claimable s.now ∧
      after = { s with
        batches := s.batches.modify batch (Batch.lock s.now)
        writers := s.writers ++ [⟨.flush batch, found.rows.map clickHouseUsageRow, .selected⟩] } := by
  unfold claimBatch at moved
  split at moved
  · cases moved
  · next found here =>
    split at moved
    · next claimable => exact ⟨found, here, claimable, (Option.some.inj moved).symm⟩
    · cases moved

theorem selectRepair_cases {request : PricingRepairRequest}
    {resolver : UsageRow → Option ResolvedCost}
    (moved : selectRepair s request resolver = some after) :
    after = { s with writers := s.writers ++
      [⟨.repair request.generation, repairReplacements request resolver s.raw, .selected⟩] } := by
  unfold selectRepair at moved
  split at moved
  · cases moved
  · exact (Option.some.inj moved).symm

theorem markRepair_cases {index : Nat} (moved : markRepair s index = some after) :
    ∃ generation rows, s.writers[index]? = some ⟨.repair generation, rows, .selected⟩ ∧
      after = { s with
        dirty := mark15mRollupDirty s.dirty rows
        writers := s.writers.set index ⟨.repair generation, rows, .marked⟩ } := by
  unfold markRepair at moved
  split at moved
  · next generation rows here => exact ⟨generation, rows, here, (Option.some.inj moved).symm⟩
  · cases moved

theorem insertRaw_cases {index : Nat} {recognised : Bool}
    (moved : insertRaw s index recognised = some after) :
    ∃ writer, s.writers[index]? = some writer ∧ writer.mayInsert ∧
      after = { s with
        raw := if recognised then s.raw else replaceRows UsageRow.dedupKey s.raw writer.rows
        tokens := writer.insertToken :: s.tokens
        writers := s.writers.set index { writer with progress := .inserted } } := by
  unfold insertRaw at moved
  split at moved
  · cases moved
  · next writer here =>
    split at moved
    · next allowed =>
      rw [Bool.and_eq_true] at allowed
      exact ⟨writer, here, allowed.1, (Option.some.inj moved).symm⟩
    · cases moved

theorem finishWriter_cases {index : Nat} (moved : finishWriter s index = some after) :
    ∃ writer, s.writers[index]? = some writer ∧ writer.progress = .inserted ∧
      after = { s with
        dirty := mark15mRollupDirty s.dirty writer.rows
        batches := match writer.job with
          | .flush batch => s.batches.modify batch Batch.deliver
          | .repair _ => s.batches
        writers := s.writers.eraseIdx index } := by
  unfold finishWriter at moved
  split at moved
  · next job rows here => exact ⟨⟨job, rows, .inserted⟩, here, rfl, (Option.some.inj moved).symm⟩
  · cases moved

theorem stopWriter_cases {index : Nat} {caught : Bool}
    (moved : stopWriter s index caught = some after) :
    ∃ writer, s.writers[index]? = some writer ∧
      after = { s with
        batches := match writer.job with
          | .flush batch => if caught then s.batches.modify batch Batch.release else s.batches
          | .repair _ => s.batches
        writers := s.writers.eraseIdx index } := by
  unfold stopWriter at moved
  split at moved
  · cases moved
  · next writer here => exact ⟨writer, here, (Option.some.inj moved).symm⟩

theorem lockCompactor_cases {startedAt : Int} {delayMs : Nat} {limitBuckets : Int}
    (moved : lockCompactor s startedAt delayMs limitBuckets = some after) :
    s.compactor = none ∧ startedAt ≤ s.now ∧ ∃ run : Compactor,
      run.eligibleTo = (startedAt - delayMs) / fifteenMinutesMs ∧
      run.watermark = readOrInitWatermark s.watermark s.raw run.eligibleTo ∧
      run.dirtyRows = [] ∧ run.version = s.now ∧ run.phase = .locked ∧
      after = { s with compactor := some run } := by
  unfold lockCompactor at moved
  split at moved
  · next allowed =>
    exact ⟨allowed.1, allowed.2, _, rfl, rfl, rfl, rfl, rfl, (Option.some.inj moved).symm⟩
  · cases moved

theorem selectDirty_cases (moved : selectDirty s = some after) :
    ∃ run, s.compactor = some run ∧
      (after = { s with watermark := some (s.watermark.getD run.watermark), compactor := none } ∨
        ∃ dirtyRows, (∀ bucket ∈ dirtyRows, bucket ∈ s.dirty) ∧
          after = { s with
            compactor := some
              { run with dirtyRows := dirtyRows, version := s.now, phase := .selected } }) := by
  unfold selectDirty at moved
  split at moved
  · cases moved
  · next run here =>
    split at moved
    · next locked =>
      refine ⟨run, here, ?_⟩
      simp only at moved
      split at moved
      · exact Or.inl (Option.some.inj moved).symm
      · refine Or.inr ⟨_, fun bucket among => ?_, (Option.some.inj moved).symm⟩
        have sorted := List.mem_of_mem_take among
        rw [List.mem_insertionSort] at sorted
        exact (List.mem_filter.mp sorted).1
    · cases moved

theorem readAggregate_cases (moved : readAggregate s = some after) :
    ∃ run, s.compactor = some run ∧ run.phase = .selected ∧
      after = { s with compactor := some { run with
        rows := aggregateRollupBuckets s.raw run.buckets run.version
        phase := .aggregated } } := by
  unfold readAggregate at moved
  split at moved
  · cases moved
  · next run here =>
    split at moved
    · next selected => exact ⟨run, here, selected, (Option.some.inj moved).symm⟩
    · cases moved

theorem deleteRollupBuckets_cases (moved : deleteRollupBuckets s = some after) :
    ∃ run, s.compactor = some run ∧ run.phase = .aggregated ∧
      after = { s with
        rollup := s.rollup.filter fun row => row.bucket ∉ run.dirtyRows
        compactor := some { run with phase := .emptied } } := by
  unfold deleteRollupBuckets at moved
  split at moved
  · cases moved
  · next run here =>
    split at moved
    · next aggregated => exact ⟨run, here, aggregated, (Option.some.inj moved).symm⟩
    · cases moved

theorem insertRollup_cases (moved : insertRollup s = some after) :
    ∃ run, s.compactor = some run ∧ run.phase = .emptied ∧
      after = { s with
        rollup := s.rollup ++ run.rows
        compactor := some { run with phase := .inserted } } := by
  unfold insertRollup at moved
  split at moved
  · cases moved
  · next run here =>
    split at moved
    · next emptied => exact ⟨run, here, emptied, (Option.some.inj moved).symm⟩
    · cases moved

theorem commitCompactor_cases (moved : commitCompactor s = some after) :
    ∃ run, s.compactor = some run ∧ run.phase = .inserted ∧
      after = { s with
        watermark := some run.newWatermark
        dirty := s.dirty.filter fun bucket => bucket ∉ run.buckets
        compactor := none } := by
  unfold commitCompactor at moved
  split at moved
  · cases moved
  · next run here =>
    split at moved
    · next inserted => exact ⟨run, here, inserted, (Option.some.inj moved).symm⟩
    · cases moved

end Toard.Storage
