/-
**The jobs of the time-zone rollup (`timezone-rollup.ts`).**

For each registered time zone the events are summed by its local hours and days. A bucket's job says
whether its sums are to be computed, and a coverage row that they were. Every function here is one
statement or transaction of Postgres; a job is known by its bucket and the number of the statement
that put it up.
-/

import Toard.Timezone.Zone

namespace Toard.Timezone

open Toard.Storage (fifteenMinutesMs)

inductive Resolution where
  | hour
  | day
deriving DecidableEq

structure BucketKey where
  resolution : Resolution
  timezone : String
  bucket : Int
deriving DecidableEq

inductive JobStatus where
  | pending
  | inflight
  | done
deriving DecidableEq

/-- A row of `clickhouse_timezone_rollup_jobs`. -/
structure TimezoneRollupJob where
  id : Nat
  sourceTo : Int
  generation : Nat
  status : JobStatus
  updatedAt : Int
deriving DecidableEq

structure Calendar where
  /-- `date_trunc(resolution, instant, timezone)`. -/
  dateTrunc : Resolution → String → Int → Int
  /-- `(instant AT TIME ZONE timezone)::date`. -/
  localDate : String → Int → Int
  /-- `date::timestamp AT TIME ZONE timezone`. -/
  dateStart : String → Int → Int

/-- The end of a bucket, as the statement of the invalidation computes it. -/
def Calendar.sourceTo (calendar : Calendar) (key : BucketKey) : Int :=
  match key.resolution with
  | .hour => key.bucket + hourMs
  | .day => calendar.dateStart key.timezone (calendar.localDate key.timezone key.bucket + 1)

structure RollupTables where
  /-- `clickhouse_rollup_timezones`. -/
  timezones : List String
  jobs : BucketKey → Option TimezoneRollupJob
  /-- `clickhouse_timezone_rollup_coverage`. -/
  coverage : BucketKey → Bool
  nextId : Nat

def RollupTables.empty : RollupTables where
  timezones := []
  jobs := fun _ => none
  coverage := fun _ => false
  nextId := 0

structure TimezoneRollupWindow where
  bucket : Int
  sourceTo : Int
deriving DecidableEq

/-! ### The statements -/

/-- The buckets of a time zone and resolution that hold one of the instants. -/
def Calendar.requested (calendar : Calendar) (timezones : List String) (affected : List Int)
    (key : BucketKey) : Bool :=
  key.timezone ∈ timezones ∧
    ∃ instant ∈ affected, calendar.dateTrunc key.resolution key.timezone instant = key.bucket

def requeue (job : Option TimezoneRollupJob) (id : Nat) (sourceTo now : Int) : TimezoneRollupJob :=
  match job with
  | none => ⟨id, sourceTo, 0, .pending, now⟩
  | some job => { job with
      sourceTo := sourceTo
      generation := job.generation + 1
      status := .pending
      updatedAt := now }

def invalidateTimezoneRollupJobs (calendar : Calendar) (now : Int) (tables : RollupTables)
    (affected : List Int) : RollupTables :=
  { tables with
    jobs := fun key =>
      if calendar.requested tables.timezones affected key then
        some (requeue (tables.jobs key) tables.nextId (calendar.sourceTo key) now)
      else tables.jobs key
    coverage := fun key =>
      tables.coverage key && !calendar.requested tables.timezones affected key
    nextId := tables.nextId + 1 }

/-- `ensureRegisteredTimezone` where there is room for one more. -/
def registerTimezone (tables : RollupTables) (timezone : String) : RollupTables :=
  { tables with timezones := tables.timezones.insert timezone }

/-- Put up jobs for the windows that are neither covered nor waited for. -/
def prewarmMissingJobs (now : Int) (tables : RollupTables) (resolution : Resolution)
    (timezone : String) (windows : List TimezoneRollupWindow) : RollupTables :=
  { tables with
    jobs := fun key =>
      match windows.find? fun window => key = ⟨resolution, timezone, window.bucket⟩ with
      | none => tables.jobs key
      | some window =>
        if tables.coverage key ∨ (tables.jobs key).isSome then tables.jobs key
        else some ⟨tables.nextId, window.sourceTo, 0, .pending, now⟩
    nextId := tables.nextId + 1 }

def reclaimMs : Int := 5 * 60 * 1000

/-- The bucket is below the watermark of the 15-minute rollup and none of its quarters is marked. -/
def baseReady (watermark : Option Int) (dirty : List Int) (bucket sourceTo : Int) : Bool :=
  (watermark.any fun watermark => sourceTo ≤ watermark * fifteenMinutesMs) ∧
    ∀ quarter ∈ dirty, ¬ (bucket ≤ quarter * fifteenMinutesMs ∧ quarter * fifteenMinutesMs < sourceTo)

/-- May a worker take the job: it waits, or was taken more than five minutes ago. -/
def TimezoneRollupJob.claimable (job : TimezoneRollupJob) (now : Int) : Bool :=
  job.status = .pending ∨ (job.status = .inflight ∧ job.updatedAt < now - reclaimMs)

def claimJob (now : Int) (watermark : Option Int) (dirty : List Int) (tables : RollupTables)
    (key : BucketKey) : Option (TimezoneRollupJob × RollupTables) :=
  match tables.jobs key with
  | none => none
  | some job =>
    if job.claimable now ∧ baseReady watermark dirty key.bucket job.sourceTo then
      let taken := { job with status := .inflight, updatedAt := now }
      some (taken, { tables with jobs := Function.update tables.jobs key (some taken) })
    else none

/-- Record the sums of a bucket as covered, and whether that was possible. The coverage of a time
zone that is no longer registered fails (its foreign key). -/
def markDone (now : Int) (watermark : Option Int) (dirty : List Int) (tables : RollupTables)
    (key : BucketKey) (id generation : Nat) : Bool × RollupTables :=
  match tables.jobs key with
  | none => (false, tables)
  | some job =>
    if job.id = id ∧ job.generation = generation ∧ job.status = .inflight ∧
        baseReady watermark dirty key.bucket job.sourceTo ∧ key.timezone ∈ tables.timezones then
      (true, { tables with
        jobs := Function.update tables.jobs key (some { job with status := .done, updatedAt := now })
        coverage := Function.update tables.coverage key true })
    else (false, tables)

def markPending (now : Int) (tables : RollupTables) (key : BucketKey) (id generation : Nat) :
    RollupTables :=
  match tables.jobs key with
  | none => tables
  | some job =>
    if job.id = id ∧ job.generation = generation ∧ job.status = .inflight then
      { tables with
        jobs := Function.update tables.jobs key
          (some { job with status := .pending, updatedAt := now }) }
    else tables

/-- End the jobs of a time zone that ClickHouse does not know, and its coverage with it. -/
def disableTimezone (now : Int) (tables : RollupTables) (timezone : String) : RollupTables :=
  { tables with
    timezones := tables.timezones.filter (· ≠ timezone)
    jobs := fun key =>
      if key.timezone = timezone then (tables.jobs key).map fun job =>
        if job.status = .done then job else { job with status := .done, updatedAt := now }
      else tables.jobs key
    coverage := fun key => tables.coverage key && key.timezone ≠ timezone }

def pruneTimezoneCoverage (cutoff : BucketKey → Int) (tables : RollupTables) : RollupTables :=
  { tables with coverage := fun key => tables.coverage key && !decide (key.bucket < cutoff key) }

def pruneCompletedJobs (cutoff : Int) (tables : RollupTables) : RollupTables :=
  { tables with
    jobs := fun key => (tables.jobs key).filter fun job =>
      ¬ (job.status = .done ∧ job.updatedAt < cutoff) }

end Toard.Timezone
