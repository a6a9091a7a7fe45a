/-
**The ClickHouse store: outbox, pricing repairs and the 15-minute rollup.**

Two databases without a common transaction. Postgres holds the outbox of usage batches, the
watermark of the rollup and the marks of the buckets to aggregate again; ClickHouse holds the raw
events and the rollup rows. Three parties work on them, and each statement of theirs is a step:

Times are in milliseconds; a bucket is the number of its quarter of an hour.
-/

import Mathlib.Algebra.GroupWithZero.Nat
import Mathlib.Algebra.Ring.Int.Defs
import Mathlib.Data.List.Sort
import Toard.Library.Replacing

namespace Toard.Storage

open Toard.Library

/-! ### Rows -/

/-- The `cost_status` of an event. -/
inductive CostStatus where
  | priced
  | estimated
  | unpriced
  | legacy
deriving DecidableEq

/-- A row of `clickhouse_usage_outbox`. Costs count units of 1e-8 USD, as `NUMERIC(18,8)` does. -/
structure OutboxRow where
  dedupKey : String
  providerKey : String
  userId : Option String
  teamId : Option String
  sessionId : Option String
  model : Option String
  ts : Int
  inputTokens : Nat
  outputTokens : Nat
  cacheReadTokens : Nat
  cacheCreationTokens : Nat
  costUsd : Int
  logAdapter : Option String
  host : Option String
  pricingRevisionId : Option String
  costStatus : CostStatus
  costCalculationVersion : Option String
  cacheCreation1hTokens : Option Nat
  isFast : Option Bool
deriving DecidableEq

/-- A row of the ClickHouse table `usage_events`. -/
structure UsageRow where
  dedupKey : String
  providerKey : String
  userId : String
  teamId : String
  sessionId : String
  model : String
  ts : Int
  inputTokens : Nat
  outputTokens : Nat
  cacheReadTokens : Nat
  cacheCreationTokens : Nat
  costUsd : Int
  pricingRevisionId : String
  costStatus : CostStatus
  costCalculationVersion : String
  cacheCreation1hTokens : Option Nat
  isFast : Option Bool
  logAdapter : String
  host : String
deriving DecidableEq

def clickHouseUsageRow (row : OutboxRow) : UsageRow where
  dedupKey := row.dedupKey
  providerKey := row.providerKey
  userId := row.userId.getD ""
  teamId := row.teamId.getD ""
  sessionId := row.sessionId.getD ""
  model := row.model.getD ""
  ts := row.ts
  inputTokens := row.inputTokens
  outputTokens := row.outputTokens
  cacheReadTokens := row.cacheReadTokens
  cacheCreationTokens := row.cacheCreationTokens
  costUsd := row.costUsd
  pricingRevisionId := row.pricingRevisionId.getD ""
  costStatus := row.costStatus
  costCalculationVersion := row.costCalculationVersion.getD "cost-v1"
  cacheCreation1hTokens := row.cacheCreation1hTokens
  isFast := row.isFast
  logAdapter := row.logAdapter.getD ""
  host := row.host.getD ""

def fifteenMinutesMs : Int := 15 * 60 * 1000

def fifteenMinuteBucket (ts : Int) : Int := ts / fifteenMinutesMs

def UsageRow.bucket (row : UsageRow) : Int := fifteenMinuteBucket row.ts

def dirty15mBuckets (rows : List UsageRow) : List Int := (rows.map UsageRow.bucket).dedup

@[simp] theorem mem_dirty15mBuckets {rows : List UsageRow} {bucket : Int} :
    bucket ∈ dirty15mBuckets rows ↔ ∃ row ∈ rows, row.bucket = bucket := by
  simp [dirty15mBuckets]

/-! ### The rollup and its aggregate -/

structure Dimensions where
  providerKey : String
  userId : String
  teamId : String
  sessionId : String
  model : String
  host : String
  pricingRevisionId : String
  costStatus : CostStatus
deriving DecidableEq

structure Totals where
  eventCount : Nat
  inputTokens : Nat
  outputTokens : Nat
  cacheReadTokens : Nat
  cacheCreationTokens : Nat
  costUsd : Int
deriving DecidableEq

/-- A row of `usage_15m_rollup_v2`. -/
structure RollupRow where
  bucket : Int
  dimensions : Dimensions
  totals : Totals
  version : Int
deriving DecidableEq

def UsageRow.dimensions (row : UsageRow) : Dimensions where
  providerKey := row.providerKey
  userId := row.userId
  teamId := row.teamId
  sessionId := row.sessionId
  model := row.model
  host := row.host
  pricingRevisionId := row.pricingRevisionId
  costStatus := row.costStatus

/-- The `GROUP BY` key of an event, and with it the sorting key of the rollup row of its group. -/
def UsageRow.group (row : UsageRow) : Int × Dimensions := (row.bucket, row.dimensions)

def RollupRow.group (row : RollupRow) : Int × Dimensions := (row.bucket, row.dimensions)

/-- The sums of a group; the cost is `sumIf(cost_usd, cost_status != 'unpriced')`. -/
def totals (rows : List UsageRow) : Totals where
  eventCount := rows.length
  inputTokens := (rows.map UsageRow.inputTokens).sum
  outputTokens := (rows.map UsageRow.outputTokens).sum
  cacheReadTokens := (rows.map UsageRow.cacheReadTokens).sum
  cacheCreationTokens := (rows.map UsageRow.cacheCreationTokens).sum
  costUsd := ((rows.filter fun row => row.costStatus ≠ .unpriced).map UsageRow.costUsd).sum

/-- The aggregate of the events of a bucket: for each group the sums of its events, if it has
any. -/
def aggregate (raw : List UsageRow) (bucket : Int) (dimensions : Dimensions) : Option Totals :=
  let rows := raw.filter fun row => row.group = (bucket, dimensions)
  if rows = [] then none else some (totals rows)

/-- The rows the compactor reads for a list of buckets: one for each group that has events. -/
def aggregateRollupBuckets (raw : List UsageRow) (buckets : List Int) (version : Int) :
    List RollupRow :=
  ((raw.filter fun row => row.bucket ∈ buckets).map UsageRow.group).dedup.map fun group =>
    { bucket := group.1
      dimensions := group.2
      totals := totals (raw.filter fun row => row.group = group)
      version := version }

/-- What a reader of the rollup table finds for a group: `usage_15m_rollup_v2 FINAL`, a
`ReplacingMergeTree(version)` ordered by the group. -/
def rollupTotals (rollup : List RollupRow) (bucket : Int) (dimensions : Dimensions) :
    Option Totals :=
  (lookup RollupRow.group RollupRow.version rollup (bucket, dimensions)).map RollupRow.totals

/-! ### The outbox -/

inductive BatchStatus where
  | pending
  | inflight
  | delivered
deriving DecidableEq

structure Batch where
  rows : List OutboxRow
  status : BatchStatus
  lockedAt : Option Int
  delivered : Bool
deriving DecidableEq

/-- Rows of a new batch: a key that is in the outbox already is left out
(`ON CONFLICT (dedup_key) DO NOTHING`). -/
def freshRows (known : List String) : List OutboxRow → List OutboxRow
  | [] => []
  | row :: rest =>
    if row.dedupKey ∈ known then freshRows known rest
    else row :: freshRows (row.dedupKey :: known) rest

def Batch.lock (now : Int) (batch : Batch) : Batch :=
  { batch with status := .inflight, lockedAt := some now }

def Batch.deliver (batch : Batch) : Batch :=
  { batch with status := .delivered, lockedAt := none, delivered := true }

def Batch.release (batch : Batch) : Batch :=
  { batch with status := .pending, lockedAt := none }

def flushLockMs : Int := 5 * 60 * 1000

/-- May a flush take the batch: undelivered, and pending or locked more than five minutes ago. -/
def Batch.claimable (now : Int) (batch : Batch) : Bool :=
  !batch.delivered && (batch.status == .pending ||
    (batch.status == .inflight && batch.lockedAt.any fun lockedAt => lockedAt < now - flushLockMs))

/-! ### Pricing repairs -/

structure PricingRepairRequest where
  fromTs : Int
  toTs : Int
  models : List String
  includeCodexModelFallback : Bool
  replaceRevisionIds : List String
  limit : Int
  generation : String
deriving DecidableEq

structure ResolvedCost where
  costUsd : Int
  pricingRevisionId : String
  costStatus : Option CostStatus
  costCalculationVersion : Option String
deriving DecidableEq

/-- The `WHERE` clause of the repair's candidates. -/
def PricingRepairRequest.selects (request : PricingRepairRequest) (row : UsageRow) : Bool :=
  request.fromTs ≤ row.ts && row.ts < request.toTs &&
    (row.costStatus == .unpriced || row.costStatus == .legacy ||
      request.replaceRevisionIds.contains row.pricingRevisionId) &&
    (request.models.contains row.model ||
      (request.includeCodexModelFallback && row.providerKey == "codex" &&
        row.logAdapter == "codex" && row.model == ""))

def repairCandidates (request : PricingRepairRequest) (raw : List UsageRow) : List UsageRow :=
  ((raw.filter request.selects).insertionSort fun left right =>
    left.ts < right.ts ∨ (left.ts = right.ts ∧ left.dedupKey ≤ right.dedupKey)).take
      (min (max request.limit 1) 1000).toNat

def UsageRow.repriced (row : UsageRow) (resolved : ResolvedCost) : UsageRow :=
  { row with
    costUsd := resolved.costUsd
    pricingRevisionId := resolved.pricingRevisionId
    costStatus := resolved.costStatus.getD .priced
    costCalculationVersion := resolved.costCalculationVersion.getD "cost-v1" }

/-- The replacements of a repair: the candidates that the resolver has a price for. -/
def repairReplacements (request : PricingRepairRequest) (resolver : UsageRow → Option ResolvedCost)
    (raw : List UsageRow) : List UsageRow :=
  if (request.models.isEmpty && !request.includeCodexModelFallback) || request.limit ≤ 0 then []
  else (repairCandidates request raw).filterMap fun row => (resolver row).map row.repriced

/-! ### The parties -/

inductive Job where
  | flush (batch : Nat)
  | repair (generation : String)
deriving DecidableEq

/-- How far a flush or repair has come. Only a repair marks before its insert. -/
inductive Progress where
  | selected
  | marked
  | inserted
deriving DecidableEq

structure Writer where
  job : Job
  rows : List UsageRow
  progress : Progress
deriving DecidableEq

def Writer.buckets (writer : Writer) : List Int := dirty15mBuckets writer.rows

/-- The `insert_deduplication_token` of an insert; a repair's digest stands for what it hashes. -/
inductive InsertToken where
  | raw (batch : Nat)
  | pricingRepair (generation : String) (sortedKeys : List String)
deriving DecidableEq

def Writer.insertToken (writer : Writer) : InsertToken :=
  match writer.job with
  | .flush batch => .raw batch
  | .repair generation =>
    .pricingRepair generation ((writer.rows.map UsageRow.dedupKey).insertionSort (· ≤ ·))

inductive Phase where
  | locked
  | selected
  | aggregated
  | emptied
  | inserted
deriving DecidableEq

structure Compactor where
  eligibleTo : Int
  maxBuckets : Nat
  watermark : Int
  dirtyRows : List Int
  version : Int
  rows : List RollupRow
  phase : Phase
deriving DecidableEq

/-- The buckets from the watermark on that are old enough, as many as the run has room for. -/
def Compactor.contiguousCount (run : Compactor) : Nat :=
  min (run.maxBuckets - run.dirtyRows.length) (run.eligibleTo - run.watermark).toNat

def Compactor.contiguousBuckets (run : Compactor) : List Int :=
  (List.range run.contiguousCount).map fun (offset : Nat) => run.watermark + (offset : Int)

def Compactor.buckets (run : Compactor) : List Int :=
  (run.contiguousBuckets ++ run.dirtyRows).dedup

def Compactor.newWatermark (run : Compactor) : Int := run.watermark + (run.contiguousCount : Int)

def Compactor.hasRead (run : Compactor) : Prop :=
  run.phase = .aggregated ∨ run.phase = .emptied ∨ run.phase = .inserted

/-! ### The retention of the rollup -/

def v2RollupRetentionMs : Int := 400 * 24 * 60 * 60 * 1000

def v2RollupRetentionBuckets : Int := v2RollupRetentionMs / fifteenMinutesMs

def clampV2RollupStart (firstBucket eligibleTo : Int) : Int :=
  let minimum := eligibleTo - v2RollupRetentionBuckets
  if firstBucket > minimum then firstBucket else minimum

/-- The bucket is within the retention of the rollup table:
`TTL toDateTime(bucket_15m) + INTERVAL 400 DAY DELETE` has not passed. -/
def Retained (now bucket : Int) : Prop := now < bucket * fifteenMinutesMs + v2RollupRetentionMs

instance (now bucket : Int) : Decidable (Retained now bucket) := by
  unfold Retained
  infer_instance

def firstRollupBucket (raw : List UsageRow) : Option Int := (raw.map UsageRow.bucket).min?

def readOrInitWatermark (current : Option Int) (raw : List UsageRow) (eligibleTo : Int) : Int :=
  match current with
  | some watermark => clampV2RollupStart watermark eligibleTo
  | none =>
    let watermark :=
      match firstRollupBucket raw with
      | some firstBucket => clampV2RollupStart firstBucket eligibleTo
      | none => eligibleTo
    clampV2RollupStart watermark eligibleTo

/-! ### The system -/

structure State where
  now : Int
  batches : List Batch
  /-- `usage_events FINAL`: one row for each key, the last inserted. -/
  raw : List UsageRow
  tokens : List InsertToken
  rollup : List RollupRow
  watermark : Option Int
  dirty : List Int
  writers : List Writer
  compactor : Option Compactor

def State.initial (now : Int) : State where
  now := now
  batches := []
  raw := []
  tokens := []
  rollup := []
  watermark := none
  dirty := []
  writers := []
  compactor := none

inductive Action where
  | tick (ms : Nat)
  | enqueue (events : List OutboxRow)
  | claim (batch : Nat)
  | selectRepair (request : PricingRepairRequest) (resolver : UsageRow → Option ResolvedCost)
  | markRepair (writer : Nat)
  | insert (writer : Nat) (recognised : Bool)
  | finish (writer : Nat)
  | stop (writer : Nat) (caught : Bool)
  | lock (startedAt : Int) (delayMs : Nat) (limitBuckets : Int)
  | selectDirty
  | aggregate
  | empty
  | insertRollup
  | commit
  | abort
  | expire (bucket : Int)

/-- The rows of `clickhouse_usage_outbox`. -/
def State.outboxRows (s : State) : List OutboxRow := s.batches.flatMap Batch.rows

def enqueueUsageEvents (s : State) (events : List OutboxRow) : State :=
  let fresh := freshRows (s.outboxRows.map OutboxRow.dedupKey) events
  if fresh = [] then s
  else { s with batches := s.batches ++ [⟨fresh, .pending, none, false⟩] }

def claimBatch (s : State) (batch : Nat) : Option State :=
  match s.batches[batch]? with
  | none => none
  | some found =>
    if found.claimable s.now then
      some { s with
        batches := s.batches.modify batch (Batch.lock s.now)
        writers := s.writers ++
          [⟨.flush batch, found.rows.map clickHouseUsageRow, .selected⟩] }
    else none

def selectRepair (s : State) (request : PricingRepairRequest)
    (resolver : UsageRow → Option ResolvedCost) : Option State :=
  match repairReplacements request resolver s.raw with
  | [] => none
  | replacements => some { s with
      writers := s.writers ++ [⟨.repair request.generation, replacements, .selected⟩] }

def mark15mRollupDirty (dirty : List Int) (rows : List UsageRow) : List Int :=
  dirty15mBuckets rows ∪ dirty

/-- The repair's first `markDirty`. -/
def markRepair (s : State) (index : Nat) : Option State :=
  match s.writers[index]? with
  | some ⟨.repair generation, rows, .selected⟩ => some { s with
      dirty := mark15mRollupDirty s.dirty rows
      writers := s.writers.set index ⟨.repair generation, rows, .marked⟩ }
  | _ => none

/-- May the writer insert now: a repair after its first mark, a flush at once. -/
def Writer.mayInsert (writer : Writer) : Bool :=
  match writer.job with
  | .flush _ => writer.progress == .selected
  | .repair _ => writer.progress == .marked

/-- The raw insert. ClickHouse drops an insert whose token it still remembers. -/
def insertRaw (s : State) (index : Nat) (recognised : Bool) : Option State :=
  match s.writers[index]? with
  | none => none
  | some writer =>
    if writer.mayInsert && (!recognised || s.tokens.contains writer.insertToken) then
      some { s with
        raw := if recognised then s.raw else replaceRows UsageRow.dedupKey s.raw writer.rows
        tokens := writer.insertToken :: s.tokens
        writers := s.writers.set index { writer with progress := .inserted } }
    else none

/-- The transaction after the insert: the marks, and for a flush the delivery. -/
def finishWriter (s : State) (index : Nat) : Option State :=
  match s.writers[index]? with
  | some ⟨job, rows, .inserted⟩ => some { s with
      dirty := mark15mRollupDirty s.dirty rows
      batches := match job with
        | .flush batch => s.batches.modify batch Batch.deliver
        | .repair _ => s.batches
      writers := s.writers.eraseIdx index }
  | _ => none

/-- A flush or repair ends early: its process dies, or it catches an error, and then a flush
releases its batch. -/
def stopWriter (s : State) (index : Nat) (caught : Bool) : Option State :=
  match s.writers[index]? with
  | none => none
  | some writer => some { s with
      batches := match writer.job with
        | .flush batch => if caught then s.batches.modify batch Batch.release else s.batches
        | .repair _ => s.batches
      writers := s.writers.eraseIdx index }

/-- A run takes the lock and reads the watermark. It fixed `eligibleTo` when it started, before it
waited for the lock. -/
def lockCompactor (s : State) (startedAt : Int) (delayMs : Nat) (limitBuckets : Int) :
    Option State :=
  if s.compactor = none ∧ startedAt ≤ s.now then
    let eligibleTo := (startedAt - delayMs) / fifteenMinutesMs
    some { s with
      compactor := some
        { eligibleTo := eligibleTo
          maxBuckets := (max 1 (min 256 limitBuckets)).toNat
          watermark := readOrInitWatermark s.watermark s.raw eligibleTo
          dirtyRows := []
          version := s.now
          rows := []
          phase := .locked } }
  else none

/-- The run selects marked buckets, at most half of what it may aggregate, and fixes its version.
With no bucket to aggregate it commits what `readOrInitWatermark` wrote. -/
def selectDirty (s : State) : Option State :=
  match s.compactor with
  | none => none
  | some run =>
    if run.phase = .locked then
      let dirtyLimit := max 1 ((run.maxBuckets + 1) / 2)
      let dirtyRows := ((s.dirty.filter fun bucket =>
        clampV2RollupStart 0 run.eligibleTo ≤ bucket ∧ bucket < run.eligibleTo).insertionSort
          (· ≤ ·)).take dirtyLimit
      let selected := { run with dirtyRows := dirtyRows, version := s.now, phase := .selected }
      if selected.buckets = [] then
        some { s with watermark := some (s.watermark.getD run.watermark), compactor := none }
      else some { s with compactor := some selected }
    else none

def readAggregate (s : State) : Option State :=
  match s.compactor with
  | none => none
  | some run =>
    if run.phase = .selected then
      some { s with compactor := some { run with
        rows := aggregateRollupBuckets s.raw run.buckets run.version
        phase := .aggregated } }
    else none

def deleteRollupBuckets (s : State) : Option State :=
  match s.compactor with
  | none => none
  | some run =>
    if run.phase = .aggregated then
      some { s with
        rollup := s.rollup.filter fun row => row.bucket ∉ run.dirtyRows
        compactor := some { run with phase := .emptied } }
    else none

def insertRollup (s : State) : Option State :=
  match s.compactor with
  | none => none
  | some run =>
    if run.phase = .emptied then
      some { s with
        rollup := s.rollup ++ run.rows
        compactor := some { run with phase := .inserted } }
    else none

/-- The run's transaction: the watermark advances, and the marks of all its buckets go. -/
def commitCompactor (s : State) : Option State :=
  match s.compactor with
  | none => none
  | some run =>
    if run.phase = .inserted then
      some { s with
        watermark := some run.newWatermark
        dirty := s.dirty.filter fun bucket => bucket ∉ run.buckets
        compactor := none }
    else none

def next (s : State) : Action → Option State
  | .tick ms => some { s with now := s.now + ms }
  | .enqueue events => some (enqueueUsageEvents s events)
  | .claim batch => claimBatch s batch
  | .selectRepair request resolver => selectRepair s request resolver
  | .markRepair index => markRepair s index
  | .insert index recognised => insertRaw s index recognised
  | .finish index => finishWriter s index
  | .stop index caught => stopWriter s index caught
  | .lock startedAt delayMs limitBuckets => lockCompactor s startedAt delayMs limitBuckets
  | .selectDirty => selectDirty s
  | .aggregate => readAggregate s
  | .empty => deleteRollupBuckets s
  | .insertRollup => insertRollup s
  | .commit => commitCompactor s
  -- The run fails or its process dies: the transaction rolls back and the lock is free again.
  | .abort => if s.compactor.isSome then some { s with compactor := none } else none
  -- ClickHouse drops the rows of a bucket whose TTL has passed.
  | .expire bucket =>
    if Retained s.now bucket then none
    else some { s with rollup := s.rollup.filter fun row => row.bucket ≠ bucket }

end Toard.Storage
