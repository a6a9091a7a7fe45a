/-
**A compaction run against the state it began in.**

A call of `compactUsageRollup` with nobody else writing: it plans its buckets (`plannedRun`), and in
each phase the tables differ from those it began with only by what it has done so far
(`During`). It empties the buckets whose marks it selected and no others, so a bucket that it takes
from the watermark keeps the rows of groups that the bucket's events no longer have.

* **`compaction_exact`**: the processed buckets have the rows of their aggregate exactly if no
  bucket that was not emptied held rows of a group without events.
* **`not_compaction_exact`**: a bucket processed early for its mark, repriced, and then taken from
  the watermark while the only mark the run has room for is another's.
-/

import Toard.Storage.Consistency

namespace Toard.Storage

open Toard.Library

/-! ### The rollup is no newer than the clock -/

/-- No rollup row is newer than the clock, and the rows a run read are of its version. -/
structure Dated (s : State) : Prop where
  rollup : ∀ row ∈ s.rollup, row.version ≤ s.now
  run : ∀ run, s.compactor = some run → run.version ≤ s.now
  rows : ∀ run, s.compactor = some run → run.hasRead → ∀ row ∈ run.rows, row.version = run.version

theorem Dated.initial (now : Int) : Dated (State.initial now) where
  rollup _ among := absurd among List.not_mem_nil
  run _ atWork := nomatch atWork
  rows _ atWork := nomatch atWork

theorem Dated.of_same_rollup {s after : State} (dated : Dated s) (later : s.now ≤ after.now)
    (rollup : after.rollup = s.rollup) (compactor : after.compactor = s.compactor) :
    Dated after where
  rollup row among := (dated.rollup row (rollup ▸ among)).trans later
  run run atWork := (dated.run run (compactor ▸ atWork)).trans later
  rows run atWork := dated.rows run (compactor ▸ atWork)

theorem Dated.of_no_run {s after : State} (dated : Dated s) (later : s.now ≤ after.now)
    (rollup : ∀ row ∈ after.rollup, row ∈ s.rollup) (compactor : after.compactor = none) :
    Dated after where
  rollup row among := (dated.rollup row (rollup row among)).trans later
  run _ atWork := nomatch compactor.symm.trans atWork
  rows _ atWork := nomatch compactor.symm.trans atWork

theorem Dated.step {s after : State} {action : Action} (dated : Dated s)
    (moved : next s action = some after) : Dated after := by
  cases action with
  | tick ms =>
    cases moved
    have later : s.now ≤ s.now + (ms : Int) := by omega
    exact dated.of_same_rollup later rfl rfl
  | enqueue events =>
    cases moved
    rcases enqueueUsageEvents_cases s events with unchanged | ⟨fresh, _, enqueued⟩
    · rw [unchanged]
      exact dated
    · rw [enqueued]
      exact dated.of_same_rollup le_rfl rfl rfl
  | claim batch =>
    obtain ⟨found, _, _, rfl⟩ := claimBatch_cases moved
    exact dated.of_same_rollup le_rfl rfl rfl
  | selectRepair request resolver =>
    have selected := selectRepair_cases moved
    subst selected
    exact dated.of_same_rollup le_rfl rfl rfl
  | markRepair index =>
    obtain ⟨generation, rows, _, rfl⟩ := markRepair_cases moved
    exact dated.of_same_rollup le_rfl rfl rfl
  | insert index recognised =>
    obtain ⟨writer, _, _, rfl⟩ := insertRaw_cases moved
    exact dated.of_same_rollup le_rfl rfl rfl
  | finish index =>
    obtain ⟨writer, _, _, rfl⟩ := finishWriter_cases moved
    exact dated.of_same_rollup le_rfl rfl rfl
  | stop index caught =>
    obtain ⟨writer, _, rfl⟩ := stopWriter_cases moved
    exact dated.of_same_rollup le_rfl rfl rfl
  | lock startedAt delayMs limitBuckets =>
    obtain ⟨_, _, run, _, _, _, version, locked, rfl⟩ := lockCompactor_cases moved
    refine ⟨dated.rollup, fun run' atWork => ?_, fun run' atWork read => ?_⟩
    · cases atWork
      exact version.le
    · cases atWork
      exact absurd read (not_hasRead (Or.inl locked))
  | selectDirty =>
    obtain ⟨run, atWork, rfl | ⟨dirtyRows, _, rfl⟩⟩ := selectDirty_cases moved
    · exact dated.of_no_run le_rfl (fun _ among => among) rfl
    · refine ⟨dated.rollup, fun run' selected => ?_, fun run' selected read => ?_⟩
      · cases selected
        exact le_rfl
      · cases selected
        exact absurd read (not_hasRead (Or.inr rfl))
  | aggregate =>
    obtain ⟨run, atWork, _, rfl⟩ := readAggregate_cases moved
    refine ⟨dated.rollup, fun run' read => ?_, fun run' read _ row among => ?_⟩
    · cases read
      exact dated.run run atWork
    · cases read
      exact (mem_aggregateRollupBuckets among).1
  | empty =>
    obtain ⟨run, atWork, aggregated, rfl⟩ := deleteRollupBuckets_cases moved
    refine ⟨fun row among => dated.rollup row (List.mem_filter.mp among).1, fun run' emptied => ?_,
      fun run' emptied _ => ?_⟩
    · cases emptied
      exact dated.run run atWork
    · cases emptied
      exact dated.rows run atWork (Or.inl aggregated)
  | insertRollup =>
    obtain ⟨run, atWork, emptied, rfl⟩ := insertRollup_cases moved
    have own := dated.rows run atWork (Or.inr (Or.inl emptied))
    refine ⟨fun row among => ?_, fun run' inserted => ?_, fun run' inserted _ => ?_⟩
    · rcases List.mem_append.mp among with old | new
      · exact dated.rollup row old
      · exact (own row new).trans_le (dated.run run atWork)
    · cases inserted
      exact dated.run run atWork
    · cases inserted
      exact own
  | commit =>
    obtain ⟨run, _, _, rfl⟩ := commitCompactor_cases moved
    exact dated.of_no_run le_rfl (fun _ among => among) rfl
  | abort =>
    simp only [next] at moved
    split at moved
    · cases moved
      exact dated.of_no_run le_rfl (fun _ among => among) rfl
    · cases moved
  | expire bucket =>
    simp only [next] at moved
    split at moved
    · cases moved
    · cases moved
      exact ⟨fun row among => dated.rollup row (List.mem_filter.mp among).1, dated.run, dated.rows⟩

theorem Dated.of_reachable {now : Int} {s : State} (reached : Reachable next (State.initial now) s) :
    Dated s :=
  Reachable.invariant Dated (.initial now) (fun _ _ _ dated moved => dated.step moved) reached

/-! ### The plan of a run -/

/-- The marks a run selects: the first ones of the eligible buckets, at most half of what it may
aggregate. -/
def selectedMarks (dirty : List Int) (run : Compactor) : List Int :=
  ((dirty.filter fun bucket =>
    clampV2RollupStart 0 run.eligibleTo ≤ bucket ∧ bucket < run.eligibleTo).insertionSort
      (· ≤ ·)).take (max 1 ((run.maxBuckets + 1) / 2))

/-- The run of a call, with the marks it selects when nobody else marks. -/
def plannedRun (s : State) (startedAt : Int) (delayMs : Nat) (limitBuckets : Int) : Compactor :=
  let eligibleTo := (startedAt - delayMs) / fifteenMinutesMs
  let locked : Compactor :=
    { eligibleTo := eligibleTo
      maxBuckets := (max 1 (min 256 limitBuckets)).toNat
      watermark := readOrInitWatermark s.watermark s.raw eligibleTo
      dirtyRows := []
      version := s.now
      rows := []
      phase := .locked }
  { locked with dirtyRows := selectedMarks s.dirty locked }

/-- The steps that may come while a run is at work and nobody else writes: time passes, the outbox
takes events and is read, and the run goes on. -/
def Quiet : Action → Prop
  | .markRepair _ | .insert _ _ | .finish _ | .lock _ _ _ | .abort | .expire _ => False
  | _ => True

def rollupAt (rollup : List RollupRow) (plan run : Compactor) : List RollupRow :=
  match run.phase with
  | .locked | .selected | .aggregated => rollup
  | .emptied => rollup.filter fun row => row.bucket ∉ plan.dirtyRows
  | .inserted => (rollup.filter fun row => row.bucket ∉ plan.dirtyRows) ++ run.rows

/-- The run that began in the state `s` is at work, and only it has changed anything that it
reads or writes. -/
structure During (s : State) (plan : Compactor) (u : State) (run : Compactor) : Prop where
  atWork : u.compactor = some run
  raw : u.raw = s.raw
  dirty : u.dirty = s.dirty
  later : s.now ≤ u.now
  eligibleTo : run.eligibleTo = plan.eligibleTo
  maxBuckets : run.maxBuckets = plan.maxBuckets
  watermark : run.watermark = plan.watermark
  selected : run.phase ≠ .locked → run.dirtyRows = plan.dirtyRows ∧ s.now ≤ run.version
  rows : run.hasRead → run.rows = aggregateRollupBuckets s.raw plan.buckets run.version
  rollup : u.rollup = rollupAt s.rollup plan run

theorem During.buckets_eq {s u : State} {plan run : Compactor} (during : During s plan u run)
    (selected : run.phase ≠ .locked) : run.buckets = plan.buckets := by
  unfold Compactor.buckets Compactor.contiguousBuckets Compactor.contiguousCount
  rw [during.eligibleTo, during.maxBuckets, during.watermark, (during.selected selected).1]

theorem During.lock {s after : State} {startedAt : Int} {delayMs : Nat} {limitBuckets : Int}
    (moved : lockCompactor s startedAt delayMs limitBuckets = some after) :
    ∃ run, During s (plannedRun s startedAt delayMs limitBuckets) after run := by
  unfold lockCompactor at moved
  split at moved
  · cases moved
    exact
      ⟨_, { atWork := rfl
            raw := rfl
            dirty := rfl
            later := le_rfl
            eligibleTo := rfl
            maxBuckets := rfl
            watermark := rfl
            selected := fun late => absurd rfl late
            rows := fun read => absurd read (not_hasRead (Or.inl rfl))
            rollup := rfl }⟩
  · cases moved

theorem selectDirty_selectedMarks {s after : State} (moved : selectDirty s = some after) :
    ∃ run, s.compactor = some run ∧ run.phase = .locked ∧ (after.compactor = none ∨
      after = { s with
        compactor := some
          { run with
            dirtyRows := selectedMarks s.dirty run
            version := s.now
            phase := .selected } }) := by
  unfold selectDirty at moved
  split at moved
  · cases moved
  · next run here =>
    split at moved
    · next locked =>
      refine ⟨run, here, locked, ?_⟩
      simp only at moved
      split at moved
      · cases moved
        exact Or.inl rfl
      · exact Or.inr (Option.some.inj moved).symm
    · cases moved

theorem During.of_same_store {s u after : State} {plan run : Compactor} (during : During s plan u run)
    (later : u.now ≤ after.now) (compactor : after.compactor = u.compactor)
    (raw : after.raw = u.raw) (dirty : after.dirty = u.dirty) (rollup : after.rollup = u.rollup) :
    During s plan after run :=
  { during with
    atWork := compactor.trans during.atWork
    raw := raw.trans during.raw
    dirty := dirty.trans during.dirty
    later := during.later.trans later
    rollup := rollup.trans during.rollup }

theorem During.step {s u after : State} {plan run : Compactor} {action : Action}
    (planned : plan.dirtyRows = selectedMarks s.dirty plan)
    (during : During s plan u run) (quiet : Quiet action) (moved : next u action = some after) :
    after.compactor = none ∨ ∃ run', During s plan after run' := by
  cases action with
  | tick ms =>
    cases moved
    have later : u.now ≤ u.now + (ms : Int) := by omega
    exact Or.inr ⟨run, during.of_same_store later rfl rfl rfl rfl⟩
  | enqueue events =>
    cases moved
    rcases enqueueUsageEvents_cases u events with unchanged | ⟨fresh, _, enqueued⟩
    · rw [unchanged]
      exact Or.inr ⟨run, during⟩
    · rw [enqueued]
      exact Or.inr ⟨run, during.of_same_store le_rfl rfl rfl rfl rfl⟩
  | claim batch =>
    obtain ⟨found, _, _, rfl⟩ := claimBatch_cases moved
    exact Or.inr ⟨run, during.of_same_store le_rfl rfl rfl rfl rfl⟩
  | selectRepair request resolver =>
    have selected := selectRepair_cases moved
    subst selected
    exact Or.inr ⟨run, during.of_same_store le_rfl rfl rfl rfl rfl⟩
  | stop index caught =>
    obtain ⟨writer, _, rfl⟩ := stopWriter_cases moved
    exact Or.inr ⟨run, during.of_same_store le_rfl rfl rfl rfl rfl⟩
  | selectDirty =>
    obtain ⟨run', here, locked, ended | rfl⟩ := selectDirty_selectedMarks moved
    · exact Or.inl ended
    · cases during.atWork.symm.trans here
      have marks : selectedMarks u.dirty run = plan.dirtyRows := by
        rw [planned, selectedMarks, selectedMarks, during.dirty, during.eligibleTo,
          during.maxBuckets]
      refine Or.inr ⟨{ run with
          dirtyRows := selectedMarks u.dirty run
          version := u.now
          phase := .selected }, { during with
        atWork := rfl
        selected := fun _ => ⟨marks, during.later⟩
        rows := fun read => absurd read (not_hasRead (Or.inr rfl))
        rollup := ?_ }⟩
      rw [during.rollup, rollupAt, locked]
      rfl
  | aggregate =>
    obtain ⟨run', here, selected, rfl⟩ := readAggregate_cases moved
    cases during.atWork.symm.trans here
    have late : run.phase ≠ .locked := by simp [selected]
    refine Or.inr ⟨_, { during with
      atWork := rfl
      selected := fun _ => during.selected late
      rows := fun _ => by rw [during.raw, during.buckets_eq late]
      rollup := ?_ }⟩
    rw [during.rollup, rollupAt, selected]
    rfl
  | empty =>
    obtain ⟨run', here, aggregated, rfl⟩ := deleteRollupBuckets_cases moved
    cases during.atWork.symm.trans here
    have late : run.phase ≠ .locked := by simp [aggregated]
    refine Or.inr ⟨_, { during with
      atWork := rfl
      selected := fun _ => during.selected late
      rows := fun _ => during.rows (Or.inl aggregated)
      rollup := ?_ }⟩
    rw [during.rollup, rollupAt, aggregated, (during.selected late).1]
    rfl
  | insertRollup =>
    obtain ⟨run', here, emptied, rfl⟩ := insertRollup_cases moved
    cases during.atWork.symm.trans here
    have late : run.phase ≠ .locked := by simp [emptied]
    refine Or.inr ⟨_, { during with
      atWork := rfl
      selected := fun _ => during.selected late
      rows := fun _ => during.rows (Or.inr (Or.inl emptied))
      rollup := ?_ }⟩
    rw [during.rollup, rollupAt, emptied]
    rfl
  | commit =>
    obtain ⟨run', _, _, rfl⟩ := commitCompactor_cases moved
    exact Or.inl rfl
  | markRepair index => exact quiet.elim
  | insert index recognised => exact quiet.elim
  | finish index => exact quiet.elim
  | lock startedAt delayMs limitBuckets => exact quiet.elim
  | abort => exact quiet.elim
  | expire bucket => exact quiet.elim

theorem compactor_eq_none_of_quiet {u after : State} {action : Action} (idle : u.compactor = none)
    (quiet : Quiet action) (moved : next u action = some after) : after.compactor = none := by
  cases action with
  | tick ms =>
    cases moved
    exact idle
  | enqueue events =>
    cases moved
    rcases enqueueUsageEvents_cases u events with unchanged | ⟨fresh, _, enqueued⟩
    · rw [unchanged]
      exact idle
    · rw [enqueued]
      exact idle
  | claim batch =>
    obtain ⟨found, _, _, rfl⟩ := claimBatch_cases moved
    exact idle
  | selectRepair request resolver =>
    rw [selectRepair_cases moved]
    exact idle
  | stop index caught =>
    obtain ⟨writer, _, rfl⟩ := stopWriter_cases moved
    exact idle
  | selectDirty =>
    obtain ⟨run, atWork, _⟩ := selectDirty_selectedMarks moved
    cases idle.symm.trans atWork
  | aggregate =>
    obtain ⟨run, atWork, _⟩ := readAggregate_cases moved
    cases idle.symm.trans atWork
  | empty =>
    obtain ⟨run, atWork, _⟩ := deleteRollupBuckets_cases moved
    cases idle.symm.trans atWork
  | insertRollup =>
    obtain ⟨run, atWork, _⟩ := insertRollup_cases moved
    cases idle.symm.trans atWork
  | commit =>
    obtain ⟨run, atWork, _⟩ := commitCompactor_cases moved
    cases idle.symm.trans atWork
  | markRepair index => exact quiet.elim
  | insert index recognised => exact quiet.elim
  | finish index => exact quiet.elim
  | lock startedAt delayMs limitBuckets => exact quiet.elim
  | abort => exact quiet.elim
  | expire bucket => exact quiet.elim

theorem During.steps {s u after : State} {plan : Compactor} {actions : List Action}
    (planned : plan.dirtyRows = selectedMarks s.dirty plan)
    (before : u.compactor = none ∨ ∃ run, During s plan u run)
    (quiet : ∀ action ∈ actions, Quiet action) (ran : run next u actions = some after) :
    after.compactor = none ∨ ∃ run, During s plan after run := by
  induction actions generalizing u with
  | nil =>
    cases ran
    exact before
  | cons action rest ih =>
    obtain ⟨middle, moved, ran⟩ := Option.bind_eq_some_iff.mp ran
    have now := quiet action List.mem_cons_self
    refine ih ?_ (fun later among => quiet later (List.mem_cons_of_mem action among)) ran
    rcases before with idle | ⟨run, during⟩
    · exact Or.inl (compactor_eq_none_of_quiet idle now moved)
    · exact during.step planned now moved

/-! ### What a run leaves -/

/-- A bucket that is emptied first has the rows of its aggregate alone, and another one keeps the
groups that its aggregate does not have. -/
theorem rollupTotals_compacted {rollup : List RollupRow} {raw : List UsageRow} {plan : Compactor}
    {version : Int} (notOlder : ∀ old ∈ rollup, old.version ≤ version) {bucket : Int}
    (among : bucket ∈ plan.buckets) (dimensions : Dimensions) :
    rollupTotals ((rollup.filter fun row => row.bucket ∉ plan.dirtyRows)
        ++ aggregateRollupBuckets raw plan.buckets version) bucket dimensions
      = (aggregate raw bucket dimensions).or
          (if bucket ∈ plan.dirtyRows then none else rollupTotals rollup bucket dimensions) := by
  have appended : ∀ old ∈ rollup.filter fun row => row.bucket ∉ plan.dirtyRows,
      ∀ row ∈ aggregateRollupBuckets raw plan.buckets version, old.version ≤ row.version := by
    intro old oldAmong row rowAmong
    rw [(mem_aggregateRollupBuckets rowAmong).1]
    exact notOlder old (List.mem_filter.mp oldAmong).1
  rw [rollupTotals_append appended, rollupTotals_aggregateRollupBuckets raw version among]
  by_cases emptied : bucket ∈ plan.dirtyRows
  · rw [if_pos emptied, rollupTotals_filter_of_removed]
    intro row _ same
    simpa [same] using emptied
  · rw [if_neg emptied, rollupTotals_filter_of_kept]
    intro row _ same
    simpa [same] using emptied

theorem aggregated_or_eq_iff {raw : List UsageRow} {bucket : Int}
    {old : Dimensions → Option Totals} :
    (fun dimensions => (aggregate raw bucket dimensions).or (old dimensions)) = aggregate raw bucket ↔
      ∀ dimensions, aggregate raw bucket dimensions = none → old dimensions = none := by
  rw [funext_iff]
  refine forall_congr' fun dimensions => ?_
  cases aggregate raw bucket dimensions with
  | none => simp
  | some sums => simp

/-- **A compaction run is exact.** In every reachable state, for a call of the compactor that
commits, with nobody else writing: every bucket it processed has the rows of its aggregate if and
only if, before the call, no processed bucket whose mark the run does not select held rows of a
group that its events do not have. -/
theorem compaction_exact {now : Int} {s before after : State}
    (reached : Reachable next (State.initial now) s) {startedAt : Int} {delayMs : Nat}
    {limitBuckets : Int} {steps : List Action} (quiet : ∀ action ∈ steps, Quiet action)
    (ran : run next s (.lock startedAt delayMs limitBuckets :: steps) = some before)
    (committed : next before .commit = some after) :
    (∀ bucket ∈ (plannedRun s startedAt delayMs limitBuckets).buckets,
        rollupTotals after.rollup bucket = aggregate after.raw bucket) ↔
      ∀ bucket ∈ (plannedRun s startedAt delayMs limitBuckets).buckets,
        bucket ∉ (plannedRun s startedAt delayMs limitBuckets).dirtyRows →
        NoLeftover s.rollup s.raw bucket := by
  obtain ⟨locked, taken, ran⟩ := Option.bind_eq_some_iff.mp ran
  have during := During.steps rfl (Or.inr (During.lock taken)) quiet ran
  obtain ⟨run, atWork, inserted, rfl⟩ := commitCompactor_cases committed
  generalize plannedRun s startedAt delayMs limitBuckets = plan at during ⊢
  rcases during with idle | ⟨run', during⟩
  · cases idle.symm.trans atWork
  cases during.atWork.symm.trans atWork
  -- The rows that the run inserted are its aggregate, and newer than all that it found.
  have rows := during.rows (Or.inr (Or.inr inserted))
  have version := (during.selected (by simp [inserted])).2
  have notOlder : ∀ old ∈ s.rollup, old.version ≤ run.version := fun old among =>
    ((Dated.of_reachable reached).rollup old among).trans version
  have table : before.rollup = (s.rollup.filter fun row => row.bucket ∉ plan.dirtyRows)
      ++ aggregateRollupBuckets s.raw plan.buckets run.version := by
    rw [during.rollup, rollupAt, inserted, rows]
  refine forall₂_congr fun bucket among => ?_
  have left : rollupTotals before.rollup bucket = fun dimensions =>
      (aggregate s.raw bucket dimensions).or
        (if bucket ∈ plan.dirtyRows then none else rollupTotals s.rollup bucket dimensions) := by
    funext dimensions
    rw [table]
    exact rollupTotals_compacted notOlder among dimensions
  show rollupTotals before.rollup bucket = aggregate before.raw bucket ↔ _
  rw [during.raw, left, aggregated_or_eq_iff]
  by_cases emptied : bucket ∈ plan.dirtyRows
  · simp [emptied]
  · simp only [emptied, if_false, not_false_eq_true, forall_const]
    rfl

def compactToInsert : List Action := [.selectDirty, .aggregate, .empty, .insertRollup]

theorem quiet_compactToInsert : ∀ action ∈ compactToInsert, Quiet action := by
  simp [compactToInsert, Quiet]

/-- The first run after an event: the rollup held nothing. -/
theorem compaction_exact_firstRun :
    ∃ s before after, run next (State.initial 7200000) (flushOf "a" 0) = some s ∧
      run next s (.lock 7200000 1800000 16 :: compactToInsert) = some before ∧
      next before .commit = some after ∧ rollupTotals after.rollup 0 = aggregate after.raw 0 := by
  have evaluated : ∃ s, run next (State.initial 7200000) (flushOf "a" 0) = some s ∧ s.rollup = [] ∧
      0 ∈ (plannedRun s 7200000 1800000 16).buckets ∧
      ∃ before, run next s (.lock 7200000 1800000 16 :: compactToInsert) = some before ∧
        ∃ after, next before .commit = some after :=
    ⟨_, rfl, rfl, by decide, _, rfl, _, rfl⟩
  obtain ⟨s, flushed, empty, among, before, ran, after, committed⟩ := evaluated
  have exact := (compaction_exact (Reachable.of_run _ flushed) quiet_compactToInsert ran
    committed).mpr fun bucket _ _ dimensions _ => by rw [empty]; rfl
  exact ⟨s, before, after, flushed, ran, committed, exact 0 among⟩

def laterEventOf (key : String) : OutboxRow := { eventOf key with ts := 3600000 }

/-- The repair of the second hour's events, from the first price revision to a second one. -/
def repriceSecondHour : List Action :=
  [.selectRepair ⟨3600000, 7200000, ["gpt-5"], false, ["r1"], 10, "g"⟩
      fun _ => some ⟨700, "r2", none, none⟩,
    .markRepair 0, .insert 0 false, .finish 0]

/-- A first run finds nothing and records its watermark. The event of that bucket is then processed
early, for its mark, and repriced, and an event comes in late for an older bucket. -/
def processedEarly : List Action :=
  [.lock 3600000 0 1, .selectDirty, .tick 3600000,
    .enqueue [laterEventOf "a"], .claim 0, .insert 0 false, .finish 0,
    .lock 7200000 0 1, .selectDirty, .aggregate, .empty, .insertRollup, .commit]
  ++ repriceSecondHour ++ flushOf "b" 1

/-- **A row of the old price revision survives.** The run has room for two buckets: it selects the
mark of the older one, and takes the repriced one from the watermark without emptying it. -/
theorem not_compaction_exact : ¬ ∀ (now : Int) (s before after : State),
    Reachable next (State.initial now) s → ∀ (startedAt : Int) (delayMs : Nat) (limitBuckets : Int)
      (steps : List Action), (∀ action ∈ steps, Quiet action) →
      run next s (.lock startedAt delayMs limitBuckets :: steps) = some before →
      next before .commit = some after →
      ∀ bucket ∈ (plannedRun s startedAt delayMs limitBuckets).buckets,
        rollupTotals after.rollup bucket = aggregate after.raw bucket := by
  intro claimed
  have evaluated : ∃ s, run next (State.initial 3600000) processedEarly = some s ∧
      4 ∈ (plannedRun s 7200000 0 2).buckets ∧
      ∃ before, run next s (.lock 7200000 0 2 :: compactToInsert) = some before ∧
        ∃ after, next before .commit = some after ∧
          rollupTotals after.rollup 4 (clickHouseUsageRow (laterEventOf "a")).dimensions
            ≠ aggregate after.raw 4 (clickHouseUsageRow (laterEventOf "a")).dimensions :=
    ⟨_, rfl, by decide, _, rfl, _, rfl, by decide⟩
  obtain ⟨s, reached, among, before, ran, after, committed, stale⟩ := evaluated
  have exact := claimed 3600000 s before after (Reachable.of_run _ reached) 7200000 0 2
    compactToInsert quiet_compactToInsert ran committed 4 among
  exact stale (congrFun exact _)

end Toard.Storage
