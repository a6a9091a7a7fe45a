/-
**The workers of the time-zone rollup (`runTimezoneRollupWorkerWith`).**

Any number of workers take jobs and compute the sums of their buckets, while the base compaction
goes on and invalidates. A worker reads the rollup, deletes the cached rows of its bucket and inserts
its own: three requests to ClickHouse under an advisory lock of the resolution and time zone. Before
and after it holds no lock, and its job may be taken by another worker after five minutes.
-/

import Toard.Timezone.Base

namespace Toard.Timezone

open Toard.Storage (fifteenMinutesMs)

structure Clocks where
  calendar : Calendar
  zones : String → Zone
  /-- `toStartOfInterval(instant, INTERVAL 1 HOUR, timezone)` and `toStartOfDay(instant, timezone)`. -/
  startOf : Resolution → String → Int → Int

/-! ### Workers -/

inductive WorkerPhase where
  | claimed
  | locked
  | read
  | emptied
  | inserted
  | compacted
  | rejected
  | ended
deriving DecidableEq

/-- A worker with the job it has taken, and the rows it has read for it. -/
structure Worker where
  key : BucketKey
  id : Nat
  generation : Nat
  phase : WorkerPhase
  rows : List TimezoneRow
deriving DecidableEq

/-- The name of the advisory lock: `timezone-rollup:resolution:timezone`. -/
def Worker.lockName (worker : Worker) : Resolution × String :=
  (worker.key.resolution, worker.key.timezone)

def WorkerPhase.holdsLock : WorkerPhase → Bool
  | .locked | .read | .emptied | .inserted => true
  | .claimed | .compacted | .rejected | .ended => false

def TimezoneRow.stamp (version : Int) (row : TimezoneRow) : TimezoneRow :=
  { row with version := version }

/-- The job still counts the report of the worker that has taken it. -/
def Claims (tables : RollupTables) (worker : Worker) : Prop :=
  ∃ job, tables.jobs worker.key = some job ∧ job.id = worker.id ∧
    job.generation = worker.generation ∧ job.status ≠ .done

/-! ### The system -/

structure RollupState where
  store : Storage.State
  tables : RollupTables
  cache : List TimezoneRow
  workers : List Worker

def RollupState.initial (now : Int) : RollupState where
  store := .initial now
  tables := .empty
  cache := []
  workers := []

inductive RollupAction where
  | base (action : Storage.Action)
  | register (timezone : String)
  | prewarm (resolution : Resolution) (timezone : String) (windows : List TimezoneRollupWindow)
  | pruneJobs (cutoff : Int)
  | pruneCoverage (cutoff : BucketKey → Int)
  | claim (key : BucketKey)
  | unsupported (worker : Nat)
  | lock (worker : Nat) (acquired : Bool)
  | read (worker : Nat)
  | empty (worker : Nat)
  | insert (worker : Nat)
  | unlock (worker : Nat)
  | done (worker : Nat)
  | fail (worker : Nat)
  | pending (worker : Nat)
  | crash (worker : Nat)

def RollupState.setWorker (s : RollupState) (index : Nat) (worker : Worker) : RollupState :=
  { s with workers := s.workers.set index worker }

def RollupState.whenIn (s : RollupState) (index : Nat) (phase : WorkerPhase)
    (step : Worker → Option RollupState) : Option RollupState :=
  match s.workers[index]? with
  | none => none
  | some worker => if worker.phase = phase then step worker else none

def RollupState.lockFree (s : RollupState) (worker : Worker) : Bool :=
  ∀ other ∈ s.workers, ¬ (other.phase.holdsLock ∧ other.lockName = worker.lockName)

/-- A step of the base rollup; the transaction of a run invalidates what it has rewritten. -/
def baseStep (calendar : Calendar) (s : RollupState) (action : Storage.Action) :
    Option RollupState :=
  (Storage.next s.store action).map fun store =>
    let buckets := rewrittenBuckets s.store action
    { s with
      store := store
      tables :=
        if buckets = [] then s.tables
        else invalidateTimezoneRollupJobs calendar s.store.now s.tables
          (buckets.map (· * fifteenMinutesMs)) }

def takeJob (s : RollupState) (key : BucketKey) : Option RollupState :=
  (claimJob s.store.now s.store.watermark s.store.dirty s.tables key).map fun taken =>
    { s with
      tables := taken.2
      workers := s.workers ++ [⟨key, taken.1.id, taken.1.generation, .claimed, []⟩] }

def tryLock (s : RollupState) (index : Nat) (acquired : Bool) : Option RollupState :=
  s.whenIn index .claimed fun worker =>
    if acquired then
      if s.lockFree worker then some (s.setWorker index { worker with phase := .locked }) else none
    else some (s.setWorker index { worker with phase := .rejected })

/-- The `SELECT` of `compactTimezoneRollup`; none where the end of the bucket throws. -/
def readRollup (clocks : Clocks) (s : RollupState) (index : Nat) : Option RollupState :=
  s.whenIn index .locked fun worker =>
    (bucketEnd clocks.zones worker.key).map fun toTs => s.setWorker index { worker with
      phase := .read
      rows := compactedRows clocks.startOf s.store.rollup worker.key toTs s.store.now }

/-- Its `DELETE`. -/
def emptyCache (s : RollupState) (index : Nat) : Option RollupState :=
  s.whenIn index .read fun worker => some
    { s.setWorker index { worker with phase := .emptied } with
      cache := s.cache.filter fun row => row.key ≠ worker.key }

def insertCache (s : RollupState) (index : Nat) : Option RollupState :=
  s.whenIn index .emptied fun worker => some
    { s.setWorker index { worker with phase := .inserted } with
      cache := s.cache ++ worker.rows.map (TimezoneRow.stamp s.store.now) }

def report (s : RollupState) (index : Nat) : Option RollupState :=
  s.whenIn index .compacted fun worker =>
    let reported := markDone s.store.now s.store.watermark s.store.dirty s.tables worker.key
      worker.id worker.generation
    some { s.setWorker index
        { worker with phase := if reported.1 then .ended else .rejected } with
      tables := reported.2 }

def failWorker (s : RollupState) (index : Nat) : Option RollupState :=
  match s.workers[index]? with
  | none => none
  | some worker =>
    if worker.phase = .ended then none
    else some (s.setWorker index { worker with phase := .rejected })

def crashWorker (s : RollupState) (index : Nat) : Option RollupState :=
  match s.workers[index]? with
  | none => none
  | some worker => some (s.setWorker index { worker with phase := .ended })

def RollupState.next (clocks : Clocks) (s : RollupState) : RollupAction → Option RollupState
  -- The retention of the rollup is not among the steps.
  | .base (.expire _) => none
  | .base action => baseStep clocks.calendar s action
  | .register timezone => some { s with tables := registerTimezone s.tables timezone }
  | .prewarm resolution timezone windows => some { s with
      tables := prewarmMissingJobs s.store.now s.tables resolution timezone windows }
  | .pruneJobs cutoff => some { s with tables := pruneCompletedJobs cutoff s.tables }
  | .pruneCoverage cutoff => some { s with tables := pruneTimezoneCoverage cutoff s.tables }
  | .claim key => takeJob s key
  | .unsupported index => s.whenIn index .claimed fun worker => some
      { s.setWorker index { worker with phase := .ended } with
        tables := disableTimezone s.store.now s.tables worker.key.timezone }
  | .lock index acquired => tryLock s index acquired
  | .read index => readRollup clocks s index
  | .empty index => emptyCache s index
  | .insert index => insertCache s index
  | .unlock index => s.whenIn index .inserted fun worker =>
      some (s.setWorker index { worker with phase := .compacted })
  | .done index => report s index
  | .fail index => failWorker s index
  | .pending index => s.whenIn index .rejected fun worker => some
      { s.setWorker index { worker with phase := .ended } with
        tables := markPending s.store.now s.tables worker.key worker.id worker.generation }
  | .crash index => crashWorker s index

/-! ### What the steps can do -/

variable {s after : RollupState}

theorem whenIn_cases {index : Nat} {phase : WorkerPhase} {step : Worker → Option RollupState}
    (moved : s.whenIn index phase step = some after) :
    ∃ worker, s.workers[index]? = some worker ∧ worker.phase = phase ∧ step worker = some after := by
  unfold RollupState.whenIn at moved
  split at moved
  · cases moved
  · next worker here =>
    split at moved
    · next inPhase => exact ⟨worker, here, inPhase, moved⟩
    · cases moved

theorem baseStep_cases {calendar : Calendar} {action : Storage.Action}
    (moved : baseStep calendar s action = some after) :
    ∃ store, Storage.next s.store action = some store ∧ after = { s with
      store := store
      tables :=
        if rewrittenBuckets s.store action = [] then s.tables
        else invalidateTimezoneRollupJobs calendar s.store.now s.tables
          ((rewrittenBuckets s.store action).map (· * fifteenMinutesMs)) } := by
  obtain ⟨store, stepped, rfl⟩ := Option.map_eq_some_iff.mp moved
  exact ⟨store, stepped, rfl⟩

theorem claimJob_cases {now : Int} {watermark : Option Int} {dirty : List Int}
    {tables : RollupTables} {key : BucketKey} {taken : TimezoneRollupJob × RollupTables}
    (claimed : claimJob now watermark dirty tables key = some taken) :
    ∃ job, tables.jobs key = some job ∧ job.claimable now = true ∧
      baseReady watermark dirty key.bucket job.sourceTo = true ∧
      taken = ({ job with status := .inflight, updatedAt := now }, { tables with
        jobs := Function.update tables.jobs key
          (some { job with status := .inflight, updatedAt := now }) }) := by
  unfold claimJob at claimed
  split at claimed
  · cases claimed
  · next job here =>
    split at claimed
    · next allowed => exact ⟨job, here, allowed.1, allowed.2, (Option.some.inj claimed).symm⟩
    · cases claimed

theorem markDone_cases (now : Int) (watermark : Option Int) (dirty : List Int)
    (tables : RollupTables) (key : BucketKey) (id generation : Nat) :
    markDone now watermark dirty tables key id generation = (false, tables) ∨
      ∃ job, tables.jobs key = some job ∧ job.id = id ∧ job.generation = generation ∧
        job.status = .inflight ∧ baseReady watermark dirty key.bucket job.sourceTo = true ∧
        key.timezone ∈ tables.timezones ∧
        markDone now watermark dirty tables key id generation = (true, { tables with
          jobs := Function.update tables.jobs key (some { job with status := .done, updatedAt := now })
          coverage := Function.update tables.coverage key true }) := by
  unfold markDone
  split
  · exact Or.inl rfl
  · next job here =>
    split
    · next allowed =>
      obtain ⟨sameId, sameGeneration, inflight, ready, registered⟩ := allowed
      exact Or.inr ⟨job, here, sameId, sameGeneration, inflight, ready, registered, rfl⟩
    · exact Or.inl rfl

theorem mem_set {workers : List Worker} {index other : Nat} {worker found : Worker}
    (here : (workers.set index worker)[other]? = some found) :
    (other = index ∧ found = worker) ∨ (other ≠ index ∧ workers[other]? = some found) := by
  rw [List.getElem?_set] at here
  split at here
  · next same =>
    split at here
    · exact Or.inl ⟨same.symm, (Option.some.inj here).symm⟩
    · cases here
  · next different => exact Or.inr ⟨fun same => different same.symm, here⟩

end Toard.Timezone
