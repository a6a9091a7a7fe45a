/-
**The pricing repair task (`pricing-repair.ts`), over either store.**

The task prices the events that have no price, an old one, or one of a revision that was replaced.
A run first takes away Codex events that were collected twice; once there are none, it asks for each
group of events whether the schedule has a price at the time of the first one, and tries a batch of
the events of those models, the earliest ones first. What it finds decides whether it is run again.

* `repairService`: which events are of a supported model, seen as the classes of a queue.
  **`isSupported_iff`**: a model is supported if a revision is in force when its first event of some group
  happened.

Times are in milliseconds, those of the status row in microseconds.
-/

import Toard.Library.Draining
import Toard.Pricing.Cost
import Toard.Pricing.RepairStatus
import Toard.Server.Timestamps
import Toard.Storage.Rollup

namespace Toard.Pricing

open Toard.Library
open Toard.Storage (OutboxRow RollupRow CostStatus ResolvedCost clickHouseUsageRow
  fifteenMinuteBucket fifteenMinutesMs mark15mRollupDirty)

/-! ### The store -/

inductive StorageKind where
  | clickHouse
  | postgres
deriving DecidableEq

/-- What is read from a text column. ClickHouse keeps an empty text where there is none. -/
def StorageKind.text (kind : StorageKind) (value : Option String) : Option String :=
  match kind with
  | .clickHouse => value.filter (· ≠ "")
  | .postgres => value

/-- `ORDER BY ts, dedup_key`. -/
def Earlier (left right : OutboxRow) : Prop :=
  left.ts < right.ts ∨ (left.ts = right.ts ∧ left.dedupKey < right.dedupKey)

instance : DecidableRel Earlier := fun left right =>
  inferInstanceAs (Decidable (left.ts < right.ts ∨ _))

/-- The table of events, and of ClickHouse the rollup with its watermark and marks. -/
structure RepairStore where
  /-- `usage_events`, in the order of `Earlier`. -/
  events : List OutboxRow
  sorted : events.Pairwise Earlier
  distinct : (events.map OutboxRow.dedupKey).Nodup
  /-- `usage_15m_rollup_v2 FINAL`. -/
  rollup : List RollupRow
  watermark : Option Int
  dirty : List Int
deriving DecidableEq

/-- The revisions of the prices: the schedule has the authoritative ones, and `nonAuthoritative` are
the ids of the others. -/
structure PriceCatalog where
  schedule : PricingSchedule
  nonAuthoritative : List String
  authoritative : ∀ revisions ∈ schedule.values, ∀ revision ∈ revisions,
    revision.id ≠ "" ∧ revision.id ∉ nonAuthoritative

/-- What is the same for all runs. `storedCost` is the value that a column has for a cost. -/
structure RepairSetting where
  kind : StorageKind
  catalog : PriceCatalog
  storedCost : JsNumber → Int
  targetTo : Int

def RepairStore.delete (store : RepairStore) (drops : OutboxRow → Bool) : RepairStore :=
  { store with
    events := store.events.filter fun row => !drops row
    sorted := store.sorted.filter _
    distinct := store.distinct.sublist (List.filter_sublist.map _) }

def repriced (row : OutboxRow) (resolved : ResolvedCost) : OutboxRow :=
  { row with
    costUsd := resolved.costUsd
    pricingRevisionId := some resolved.pricingRevisionId
    costStatus := resolved.costStatus.getD .priced
    costCalculationVersion := some (resolved.costCalculationVersion.getD "cost-v1") }

def priceIn (batch : List OutboxRow) (resolver : OutboxRow → Option ResolvedCost)
    (row : OutboxRow) : OutboxRow :=
  if row.dedupKey ∈ batch.map OutboxRow.dedupKey then (resolver row).elim row (repriced row)
  else row

theorem priceIn_key (batch : List OutboxRow) (resolver : OutboxRow → Option ResolvedCost)
    (row : OutboxRow) : (priceIn batch resolver row).ts = row.ts ∧
      (priceIn batch resolver row).dedupKey = row.dedupKey := by
  unfold priceIn
  split
  · cases resolver row <;> exact ⟨rfl, rfl⟩
  · exact ⟨rfl, rfl⟩

def RepairStore.price (store : RepairStore) (batch : List OutboxRow)
    (resolver : OutboxRow → Option ResolvedCost) : RepairStore :=
  { store with
    events := store.events.map (priceIn batch resolver)
    sorted := by
      rw [List.pairwise_map]
      refine store.sorted.imp fun {left right} earlier => ?_
      rw [Earlier, (priceIn_key batch resolver left).1, (priceIn_key batch resolver left).2,
        (priceIn_key batch resolver right).1, (priceIn_key batch resolver right).2]
      exact earlier
    distinct := by
      have same : OutboxRow.dedupKey ∘ priceIn batch resolver = OutboxRow.dedupKey :=
        funext fun row => (priceIn_key batch resolver row).2
      rw [List.map_map, same]
      exact store.distinct }

def RepairStore.mark (store : RepairStore) (kind : StorageKind) (rows : List OutboxRow) :
    RepairStore :=
  match kind with
  | .clickHouse =>
    { store with dirty := mark15mRollupDirty store.dirty (rows.map clickHouseUsageRow) }
  | .postgres => store

/-- `Math.min(Math.max(limit, 1), most)`. -/
def batchLimit (limit most : Nat) : Nat := min (max limit 1) most

namespace RepairSetting

variable (setting : RepairSetting)

def inRange (row : OutboxRow) : Bool := 0 ≤ row.ts && row.ts < setting.targetTo

/-! ### Events collected twice -/

def replayTuple (row : OutboxRow) :
    (Option String × Option String × Option String × Option String) × (Nat × Nat × Nat × Nat) :=
  ((setting.kind.text row.sessionId, setting.kind.text row.userId, setting.kind.text row.host,
      setting.kind.text row.logAdapter),
    (row.inputTokens, row.outputTokens, row.cacheReadTokens, row.cacheCreationTokens))

def isReplay (events : List OutboxRow) (bad : OutboxRow) : Bool :=
  setting.inRange bad && bad.providerKey == "codex" && bad.costStatus == .unpriced &&
    bad.model.getD "" == "" && bad.sessionId.getD "" != "" && bad.logAdapter == some "codex" &&
    events.any fun good => good.providerKey == "codex" && good.model.getD "" != "" &&
      setting.replayTuple good == setting.replayTuple bad

structure UsageReplayReconciliationResult where
  scanned : Nat
  reconciled : Nat
  remainingUnpriced : Nat
  hasMore : Bool
deriving DecidableEq

def countUnpriced (events : List OutboxRow) : Nat :=
  events.countP fun row => setting.inRange row && row.costStatus == .unpriced

def replays (store : RepairStore) : List OutboxRow :=
  store.events.filter (setting.isReplay store.events)

/-- The unpriced events that are left: ClickHouse subtracts, and says 0 where it has taken none;
Postgres counts. -/
def remainingUnpriced (before after : List OutboxRow) (taken : Nat) : Nat :=
  match setting.kind with
  | .clickHouse => if taken = 0 then 0 else setting.countUnpriced before - taken
  | .postgres => setting.countUnpriced after

def reconcileCodexReplayUsage (limit : Nat) (store : RepairStore) :
    UsageReplayReconciliationResult × RepairStore :=
  if limit = 0 then (⟨0, 0, 0, false⟩, store)
  else
    let found := setting.replays store
    let candidates := found.take (batchLimit limit 1000)
    let cleaned := (store.delete fun row => candidates.contains row).mark setting.kind candidates
    (⟨candidates.length, candidates.length,
      setting.remainingUnpriced store.events cleaned.events candidates.length,
      batchLimit limit 1000 < found.length⟩, cleaned)

/-! ### What is to be priced -/

/-- The event has no price, an old one, or one of a revision to replace. -/
def needsPricing (row : OutboxRow) : Bool :=
  setting.inRange row && (row.costStatus == .unpriced || row.costStatus == .legacy ||
    row.pricingRevisionId.any setting.catalog.nonAuthoritative.contains)

def waiting (events : List OutboxRow) : List OutboxRow := events.filter setting.needsPricing

structure PricingRecoveryModelDiagnostic where
  providerKey : String
  logAdapter : Option String
  model : Option String
  events : Nat
  unpricedEvents : Nat
  legacyEvents : Nat
  firstAt : Int
  lastAt : Int
deriving DecidableEq

/-- `GROUP BY provider_key, log_adapter, model`. -/
def group (row : OutboxRow) : String × Option String × Option String :=
  (row.providerKey, setting.kind.text row.logAdapter, setting.kind.text row.model)

def diagnosticOf (group : String × Option String × Option String) (rows : List OutboxRow) :
    PricingRecoveryModelDiagnostic where
  providerKey := group.1
  logAdapter := group.2.1
  model := group.2.2
  events := rows.length
  unpricedEvents := rows.countP fun row => row.costStatus == .unpriced
  legacyEvents := rows.countP fun row => row.costStatus == .legacy
  firstAt := (rows.map OutboxRow.ts).min?.getD 0
  lastAt := (rows.map OutboxRow.ts).max?.getD 0

/-- `ORDER BY events DESC, model`; no model comes last. -/
def listedBefore (left right : PricingRecoveryModelDiagnostic) : Bool :=
  right.events < left.events || (left.events == right.events &&
    match left.model, right.model with
    | _, none => true
    | none, some _ => false
    | some left, some right => left ≤ right)

def recoveryModels (rows : List OutboxRow) : List PricingRecoveryModelDiagnostic :=
  ((rows.map setting.group).dedup.map fun group =>
    diagnosticOf group (rows.filter fun row => setting.group row = group)).mergeSort listedBefore

def getPricingRecoveryModels (store : RepairStore) : List PricingRecoveryModelDiagnostic :=
  setting.recoveryModels (setting.waiting store.events)

structure SupportedPricingTargets where
  models : List String
  includeCodexModelFallback : Bool

/-- The price of an event without tokens at the time of the first one. -/
def probe (diagnostic : PricingRecoveryModelDiagnostic) : CostResolution :=
  resolveCostAt
    { model := diagnostic.model
      providerKey := some diagnostic.providerKey
      logAdapter := diagnostic.logAdapter
      occurredAt := diagnostic.firstAt
      tokens := noTokens } setting.catalog.schedule

def supportedPricingTargets (diagnostics : List PricingRecoveryModelDiagnostic) :
    SupportedPricingTargets :=
  let supported := diagnostics.filter fun diagnostic =>
    (setting.probe diagnostic).status ≠ .unpriced
  { models := (supported.filterMap fun diagnostic => diagnostic.model.filter (· ≠ "")).dedup
    includeCodexModelFallback := supported.any fun diagnostic =>
      (diagnostic.model.getD "" == "") && diagnostic.providerKey == "codex" &&
        diagnostic.logAdapter == some "codex" }

/-! ### Pricing a batch -/

def costAt (row : OutboxRow) : CostResolution :=
  resolveCostAt
    { model := setting.kind.text row.model
      providerKey := some row.providerKey
      logAdapter := setting.kind.text row.logAdapter
      occurredAt := row.ts
      tokens :=
        { inputTokens := row.inputTokens
          outputTokens := row.outputTokens
          cacheReadTokens := row.cacheReadTokens
          cacheCreationTokens := row.cacheCreationTokens
          cacheCreation1hTokens := row.cacheCreation1hTokens
          isFast := row.isFast } } setting.catalog.schedule

def ResolutionStatus.stored : ResolutionStatus → CostStatus
  | .priced => .priced
  | .estimated => .estimated
  | .unpriced => .unpriced

def resolver (row : OutboxRow) : Option ResolvedCost :=
  let resolved := setting.costAt row
  match resolved.status, resolved.pricingRevisionId with
  | .unpriced, _ => none
  | _, none => none
  | status, some revision =>
    if revision = "" then none
    else some ⟨setting.storedCost resolved.costUsd, revision, ResolutionStatus.stored status,
      some "cost-v2"⟩

/-- The `WHERE` clause of the batch, for the models of the request. -/
def isTarget (targets : SupportedPricingTargets) (row : OutboxRow) : Bool :=
  (setting.kind.text row.model).any targets.models.contains ||
    (targets.includeCodexModelFallback && row.providerKey == "codex" &&
      row.logAdapter == some "codex" && setting.kind.text row.model == none)

structure PricingRecoveryBatchResult where
  scanned : Nat
  recovered : Nat
  repricedLegacy : Nat
  hasMore : Bool
deriving DecidableEq

def countPriced (batch : List OutboxRow) (status : CostStatus) : Nat :=
  batch.countP fun row => row.costStatus == status && (setting.resolver row).isSome

/-- ClickHouse is asked for one event more than the batch has, Postgres is not. -/
def hasMore (found limit : Nat) : Bool :=
  match setting.kind with
  | .clickHouse => limit < found
  | .postgres => limit ≤ found

def repairPricingUsage (targets : SupportedPricingTargets) (limit : Nat) (store : RepairStore) :
    PricingRecoveryBatchResult × RepairStore :=
  if (targets.models = [] ∧ targets.includeCodexModelFallback = false) ∨ limit = 0 then
    (⟨0, 0, 0, false⟩, store)
  else
    let found := (setting.waiting store.events).filter (setting.isTarget targets)
    let batch := found.take (batchLimit limit 1000)
    (⟨batch.length, setting.countPriced batch .unpriced, setting.countPriced batch .legacy,
        setting.hasMore found.length (batchLimit limit 1000)⟩,
      (store.price batch setting.resolver).mark setting.kind
        (batch.filter fun row => (setting.resolver row).isSome))

/-! ### The rollup -/

structure BucketStatuses where
  events : Nat
  estimated : Nat
  priced : Nat
  unpriced : Nat
  legacy : Nat
  cost : Int
deriving DecidableEq

def rawStatuses (rows : List OutboxRow) : BucketStatuses :=
  let count (status : CostStatus) := rows.countP fun row => row.costStatus == status
  { events := rows.length
    estimated := count .estimated
    priced := count .priced
    unpriced := count .unpriced
    legacy := count .legacy
    cost := ((rows.filter fun row => row.costStatus ≠ .unpriced).map OutboxRow.costUsd).sum }

def rollupStatuses (rows : List RollupRow) : BucketStatuses :=
  let count (status : CostStatus) :=
    ((rows.filter fun row => row.dimensions.costStatus = status).map (·.totals.eventCount)).sum
  { events := (rows.map (·.totals.eventCount)).sum
    estimated := count .estimated
    priced := count .priced
    unpriced := count .unpriced
    legacy := count .legacy
    cost := ((rows.filter fun row => row.dimensions.costStatus ≠ .unpriced).map
      (·.totals.costUsd)).sum }

structure PricingRollupReconciliationResult where
  dirtied : Nat
  hasMore : Bool
deriving DecidableEq

/-- The buckets of the events in the range, in order: the events come in the order of time. -/
def rawBuckets (events : List OutboxRow) (ends : Int) : List Int :=
  ((events.filter fun row => 0 ≤ row.ts ∧ row.ts < ends).map fun row =>
    fifteenMinuteBucket row.ts).dedup

/-- As many events as in the rollup, but not the same prices, and not marked yet. -/
def isStale (store : RepairStore) (ends : Int) (bucket : Int) : Bool :=
  let raw := rawStatuses (store.events.filter fun row =>
    (0 ≤ row.ts ∧ row.ts < ends) ∧ fifteenMinuteBucket row.ts = bucket)
  let rollup := rollupStatuses (store.rollup.filter fun row => row.bucket = bucket)
  raw.events == rollup.events && 0 < raw.events && !store.dirty.contains bucket && raw != rollup

def reconcilePricingRollupUsage (limit : Nat) (store : RepairStore) :
    PricingRollupReconciliationResult × RepairStore :=
  match setting.kind, store.watermark with
  | .clickHouse, some coveredTo =>
    let ends := min (coveredTo * fifteenMinutesMs) setting.targetTo
    if ends ≤ 0 ∨ limit = 0 then (⟨0, false⟩, store)
    else
      let found := (rawBuckets store.events ends).filter (isStale store ends)
      let affected := found.take (batchLimit limit 10000)
      (⟨affected.length, batchLimit limit 10000 < found.length⟩,
        { store with dirty := affected ∪ store.dirty })
  | _, _ => (⟨0, false⟩, store)

end RepairSetting

/-! ### A run -/

def PRICING_ROLLUP_RECONCILIATION_LIMIT : Nat := 10000

def waitingRetryMs : Int := 60 * 60 * 1000

def nextPricingRepairBatchLimit (current : Nat) (durationMs : Int) (fullBatch : Bool) :
    Nat × RepairLoadState :=
  if 10000 ≤ durationMs then (max 25 (current / 2), .throttled)
  else if fullBatch ∧ durationMs ≤ 2000 then (min 500 (max 25 ((current * 5 + 3) / 4)), .normal)
  else (min 500 (max 25 current), .normal)

example : nextPricingRepairBatchLimit 100 5000 false = (100, .normal) := by decide

/-- `toISOString`: a year of more than four digits, or before the year 0, has a sign. -/
def toISOString (ms : Int) : String :=
  let (year, month, day) := Shim.civilFromDays (ms / msPerDay)
  let yearText :=
    if 0 ≤ year ∧ year < 10000 then zeroPad 4 year.toNat
    else (if year < 0 then '-' else '+') :: zeroPad 6 year.natAbs
  String.ofList (yearText ++ Server.isoRest month day (ms % msPerDay).toNat)

open RepairSetting

def unresolvedModels (diagnostics : List PricingRecoveryModelDiagnostic) :
    List PricingUnresolvedModel :=
  diagnostics.map fun item =>
    { model := item.model
      events := item.events
      unpricedEvents := item.unpricedEvents
      legacyEvents := item.legacyEvents
      firstAt := toISOString item.firstAt
      lastAt := toISOString item.lastAt }

structure RunClock where
  startedAt : Int
  reportsAt : Int

def leftDiagnostics (targets : SupportedPricingTargets)
    (diagnostics : List PricingRecoveryModelDiagnostic) : List PricingRecoveryModelDiagnostic :=
  diagnostics.filter fun item =>
    match item.model.filter (· ≠ "") with
    | some model => !targets.models.contains model
    | none => !(targets.includeCodexModelFallback && item.providerKey == "codex" &&
        item.logAdapter == some "codex")

/-- `runPricingRepairTaskWith`, for a run that has claimed the status row, and without a step into
the history of prices. -/
def runPricingRepairTask (setting : RepairSetting) (claimed : PricingRepairStatus)
    (clock : RunClock) (store : RepairStore) : PricingRepairProgress × RepairStore :=
  let replay := setting.reconcileCodexReplayUsage claimed.adaptiveLimit store
  let durationMs := clock.reportsAt - clock.startedAt
  if 0 < replay.1.scanned then
    let adaptive := nextPricingRepairBatchLimit claimed.adaptiveLimit durationMs
      (replay.1.hasMore || claimed.adaptiveLimit ≤ replay.1.scanned)
    ({ state := .pending
       processed := replay.1.scanned
       recovered := 0
       reconciled := replay.1.reconciled
       repricedLegacy := 0
       remaining := replay.1.remainingUnpriced
       remainingLegacy := claimed.remainingLegacyEvents
       unresolvedModels := claimed.unresolvedModels
       adaptiveLimit := adaptive.1
       loadState := adaptive.2
       nextAttemptAt := some (clock.reportsAt * 1000)
       reportedAt := clock.reportsAt * 1000 }, replay.2)
  else
    let diagnostics := setting.getPricingRecoveryModels store
    let targets := setting.supportedPricingTargets diagnostics
    let repair := setting.repairPricingUsage targets claimed.adaptiveLimit store
    let result := repair.1
    let remainingTotal := (diagnostics.map (·.events)).sum - result.recovered - result.repricedLegacy
    let remainingSupported :=
      result.hasMore || result.recovered + result.repricedLegacy < result.scanned
    let remainingDiagnostics :=
      if !result.hasMore ∧ result.scanned = result.recovered + result.repricedLegacy then
        leftDiagnostics targets diagnostics
      else diagnostics
    let rollup :=
      if !result.hasMore ∧ !remainingSupported ∧ remainingTotal = 0 then
        setting.reconcilePricingRollupUsage PRICING_ROLLUP_RECONCILIATION_LIMIT repair.2
      else (⟨0, false⟩, repair.2)
    let adaptive := nextPricingRepairBatchLimit claimed.adaptiveLimit durationMs
      (claimed.adaptiveLimit ≤ result.scanned)
    let state : ReportedState :=
      if result.hasMore ∨ remainingSupported ∨ rollup.1.hasMore then .pending
      else if remainingTotal = 0 then .idle
      else .waitingForCatalog
    ({ state := state
       processed := replay.1.scanned + result.scanned
       recovered := result.recovered
       reconciled := replay.1.reconciled
       repricedLegacy := result.repricedLegacy
       remaining := (diagnostics.map (·.unpricedEvents)).sum - result.recovered
       remainingLegacy := (diagnostics.map (·.legacyEvents)).sum - result.repricedLegacy
       unresolvedModels := unresolvedModels remainingDiagnostics
       adaptiveLimit := adaptive.1
       loadState := adaptive.2
       nextAttemptAt :=
         match state with
         | .waitingForCatalog => some ((clock.reportsAt + waitingRetryMs) * 1000)
         | .pending => some (clock.reportsAt * 1000)
         | .idle => none
       reportedAt := clock.reportsAt * 1000 }, rollup.2)

namespace RepairSetting

variable {setting : RepairSetting}

/-! ### What the resolver answers -/

def inForce (setting : RepairSetting) (row : OutboxRow) : Bool :=
  (revisionInForce setting.catalog.schedule (setting.kind.text row.model) (some row.providerKey)
    (setting.kind.text row.logAdapter) row.ts).isSome

def resolves (setting : RepairSetting) (row : OutboxRow) : Bool := (setting.resolver row).isSome

theorem authoritative_of_priced {row : OutboxRow}
    (priced : (setting.costAt row).status ≠ .unpriced) :
    setting.inForce row = true ∧ ∃ revision, (setting.costAt row).pricingRevisionId = some revision ∧
      revision ≠ "" ∧ revision ∉ setting.catalog.nonAuthoritative := by
  obtain ⟨revision, found, isRevision⟩ := revisionInForce_of_priced priced
  refine ⟨Option.isSome_iff_exists.mpr ⟨revision, found⟩, revision.id, isRevision, ?_⟩
  obtain ⟨entry, isEntry, selected⟩ := Option.bind_eq_some_iff.mp found
  obtain ⟨model, -, resolved⟩ := Option.bind_eq_some_iff.mp isEntry
  exact setting.catalog.authoritative entry.value (resolveAliasEntry_mem resolved) revision
    (mem_of_selectedRevision selected)

/-- **The resolver answers for exactly the events that `resolveCostAt` prices**, with a revision that
is not to be replaced. -/
theorem resolver_eq_some {row : OutboxRow} {resolved : ResolvedCost}
    (answer : setting.resolver row = some resolved) :
    (setting.costAt row).status ≠ .unpriced ∧
      resolved.pricingRevisionId ∉ setting.catalog.nonAuthoritative ∧
      ∃ status, resolved.costStatus = some status ∧ status ≠ .unpriced ∧ status ≠ .legacy := by
  unfold resolver at answer
  have priced : (setting.costAt row).status ≠ .unpriced := by
    intro unpriced
    simp only [unpriced] at answer
    cases answer
  obtain ⟨-, revision, isRevision, named, authoritative⟩ := authoritative_of_priced priced
  refine ⟨priced, ?_⟩
  cases isStatus : (setting.costAt row).status with
  | unpriced => exact absurd isStatus priced
  | priced =>
    simp only [isStatus, isRevision, if_neg named, Option.some.injEq] at answer
    subst answer
    exact ⟨authoritative, .priced, rfl, by decide, by decide⟩
  | estimated =>
    simp only [isStatus, isRevision, if_neg named, Option.some.injEq] at answer
    subst answer
    exact ⟨authoritative, .estimated, rfl, by decide, by decide⟩

theorem resolves_iff {row : OutboxRow} :
    setting.resolves row = true ↔ (setting.costAt row).status ≠ .unpriced := by
  constructor
  · intro resolves
    obtain ⟨resolved, answer⟩ := Option.isSome_iff_exists.mp resolves
    exact (resolver_eq_some answer).1
  · intro priced
    obtain ⟨-, revision, isRevision, named, -⟩ := authoritative_of_priced priced
    unfold resolves resolver
    cases isStatus : (setting.costAt row).status with
    | unpriced => exact absurd isStatus priced
    | priced => simp [isRevision, named]
    | estimated => simp [isRevision, named]

theorem inForce_of_resolves {row : OutboxRow} (resolves : setting.resolves row = true) :
    setting.inForce row = true :=
  (authoritative_of_priced (resolves_iff.mp resolves)).1

/-! ### Supported models -/

/-- What a batch is chosen by: a model, or the Codex events without one. -/
inductive RepairTarget where
  | model (name : String)
  | codexFallback
deriving DecidableEq

def repairTarget (setting : RepairSetting) (row : OutboxRow) : Option RepairTarget :=
  match setting.kind.text row.model with
  | some name => if name = "" then none else some (.model name)
  | none =>
    if row.providerKey = "codex" ∧ row.logAdapter = some "codex" then some .codexFallback else none

def SupportedPricingTargets.supports (targets : SupportedPricingTargets) : RepairTarget → Bool
  | .model name => targets.models.contains name
  | .codexFallback => targets.includeCodexModelFallback

/-- The target is one that the diagnostics of some events find supported. -/
def isSupported (setting : RepairSetting) (rows : List OutboxRow) (target : RepairTarget) : Bool :=
  (setting.supportedPricingTargets (setting.recoveryModels rows)).supports target

def IsFirst (setting : RepairSetting) (rows : List OutboxRow) (first : OutboxRow) : Prop :=
  first ∈ rows ∧ ∀ row ∈ rows, setting.group row = setting.group first → first.ts ≤ row.ts

theorem group_eq_iff {left right : OutboxRow} : setting.group left = setting.group right ↔
    left.providerKey = right.providerKey ∧
      setting.kind.text left.logAdapter = setting.kind.text right.logAdapter ∧
      setting.kind.text left.model = setting.kind.text right.model := by
  rw [group, group, Prod.mk.injEq, Prod.mk.injEq]

theorem text_eq_codex (kind : StorageKind) (value : Option String) :
    kind.text value = some "codex" ↔ value = some "codex" := by
  cases kind with
  | postgres => exact Iff.rfl
  | clickHouse => simp [StorageKind.text, Option.filter_eq_some_iff]

theorem repairTarget_eq_model {row : OutboxRow} {name : String} :
    setting.repairTarget row = some (.model name) ↔
      setting.kind.text row.model = some name ∧ name ≠ "" := by
  unfold repairTarget
  cases setting.kind.text row.model with
  | none => simp
  | some found =>
    by_cases empty : found = ""
    · simp only [if_pos empty, reduceCtorEq, Option.some.injEq, false_iff, not_and, not_not]
      rintro rfl
      exact empty
    · simp only [if_neg empty, Option.some.injEq, RepairTarget.model.injEq]
      constructor
      · rintro rfl
        exact ⟨rfl, empty⟩
      · exact And.left

theorem repairTarget_eq_codexFallback {row : OutboxRow} :
    setting.repairTarget row = some .codexFallback ↔
      setting.kind.text row.model = none ∧ row.providerKey = "codex" ∧
        row.logAdapter = some "codex" := by
  unfold repairTarget
  cases setting.kind.text row.model with
  | none => simp
  | some found => by_cases empty : found = "" <;> simp [empty]

theorem repairTarget_of_group {left right : OutboxRow}
    (same : setting.group left = setting.group right) :
    setting.repairTarget left = setting.repairTarget right := by
  obtain ⟨provider, adapter, model⟩ := group_eq_iff.mp same
  have codex : left.logAdapter = some "codex" ↔ right.logAdapter = some "codex" := by
    rw [← text_eq_codex setting.kind left.logAdapter, adapter, text_eq_codex]
  refine Option.ext fun target => ?_
  cases target with
  | model name => rw [repairTarget_eq_model, repairTarget_eq_model, model]
  | codexFallback =>
    rw [repairTarget_eq_codexFallback, repairTarget_eq_codexFallback, model, provider, codex]

theorem inForce_of_group {left right : OutboxRow} (same : setting.group left = setting.group right)
    (sameTime : left.ts = right.ts) : setting.inForce left = setting.inForce right := by
  obtain ⟨provider, adapter, model⟩ := group_eq_iff.mp same
  rw [inForce, inForce, provider, adapter, model, sameTime]

theorem repairTarget_of_inForce {row : OutboxRow} (priced : setting.inForce row = true) :
    (setting.repairTarget row).isSome = true := by
  obtain ⟨revision, found⟩ := Option.isSome_iff_exists.mp priced
  obtain ⟨entry, isEntry, -⟩ := Option.bind_eq_some_iff.mp found
  obtain ⟨model, isModel, resolved⟩ := Option.bind_eq_some_iff.mp isEntry
  unfold repairTarget
  cases named : setting.kind.text row.model with
  | some name =>
    by_cases empty : name = ""
    · subst empty
      rw [named, pricingModel] at isModel
      simp only [Option.some.injEq, String.reduceEq, if_false, reduceCtorEq, false_and] at isModel
      subst isModel
      rw [resolveAliasEntry, if_pos rfl] at resolved
      cases resolved
    · simp [empty]
  | none =>
    by_cases codex : row.providerKey = "codex" ∧ row.logAdapter = some "codex"
    · simp [codex]
    · rw [named, pricingModel] at isModel
      simp [text_eq_codex, codex] at isModel

theorem exists_isFirst (setting : RepairSetting) {rows : List OutboxRow} {row : OutboxRow} (among : row ∈ rows) :
    ∃ first, setting.IsFirst rows first ∧ setting.group first = setting.group row := by
  have some_ : ((rows.filter fun other => setting.group other = setting.group row).map
      OutboxRow.ts) ≠ [] := by
    rw [Ne, List.map_eq_nil_iff]
    exact List.ne_nil_of_mem (List.mem_filter.mpr ⟨among, decide_eq_true rfl⟩)
  obtain ⟨least, isLeast⟩ := Option.isSome_iff_exists.mp (List.isSome_min?_of_ne_nil some_)
  obtain ⟨isTime, below⟩ := List.min?_eq_some_iff.mp isLeast
  obtain ⟨first, isFirst, rfl⟩ := List.mem_map.mp isTime
  obtain ⟨inRows, same⟩ := List.mem_filter.mp isFirst
  have same := of_decide_eq_true same
  refine ⟨first, ⟨inRows, fun other otherAmong together => below _ ?_⟩, same⟩
  exact List.mem_map_of_mem
    (List.mem_filter.mpr ⟨otherAmong, decide_eq_true (together.trans same)⟩)

theorem mem_recoveryModels {rows : List OutboxRow} {diagnostic : PricingRecoveryModelDiagnostic} :
    diagnostic ∈ setting.recoveryModels rows ↔ ∃ first, setting.IsFirst rows first ∧
      diagnostic = diagnosticOf (setting.group first)
        (rows.filter fun row => setting.group row = setting.group first) := by
  rw [recoveryModels, List.mem_mergeSort, List.mem_map]
  constructor
  · rintro ⟨group, isGroup, rfl⟩
    obtain ⟨row, among, rfl⟩ := List.mem_map.mp (List.mem_dedup.mp isGroup)
    obtain ⟨first, isFirst, same⟩ := exists_isFirst setting among
    exact ⟨first, isFirst, by rw [same]⟩
  · rintro ⟨first, isFirst, rfl⟩
    exact ⟨setting.group first, List.mem_dedup.mpr (List.mem_map_of_mem isFirst.1), rfl⟩

theorem firstAt_of_isFirst {rows : List OutboxRow} {first : OutboxRow}
    (isFirst : setting.IsFirst rows first) :
    (diagnosticOf (setting.group first)
      (rows.filter fun row => setting.group row = setting.group first)).firstAt = first.ts := by
  have least : ((rows.filter fun row => setting.group row = setting.group first).map
      OutboxRow.ts).min? = some first.ts := by
    refine List.min?_eq_some_iff.mpr ⟨?_, fun time isTime => ?_⟩
    · exact List.mem_map_of_mem (List.mem_filter.mpr ⟨isFirst.1, decide_eq_true rfl⟩)
    · obtain ⟨row, among, rfl⟩ := List.mem_map.mp isTime
      obtain ⟨inRows, same⟩ := List.mem_filter.mp among
      exact isFirst.2 row inRows (of_decide_eq_true same)
  rw [diagnosticOf, least]
  rfl

/-- **The probe of a group asks for a revision in force at the time of its first event.** -/
theorem probe_iff {rows : List OutboxRow} {first : OutboxRow}
    (isFirst : setting.IsFirst rows first) :
    (setting.probe (diagnosticOf (setting.group first)
      (rows.filter fun row => setting.group row = setting.group first))).status ≠ .unpriced ↔
      setting.inForce first = true := by
  have time := firstAt_of_isFirst isFirst
  rw [probe, probe_priced_iff rfl, inForce]
  dsimp only
  rw [time]
  rfl

theorem mem_supported {rows : List OutboxRow} {diagnostic : PricingRecoveryModelDiagnostic} :
    diagnostic ∈ (setting.recoveryModels rows).filter (fun diagnostic =>
      (setting.probe diagnostic).status ≠ .unpriced) ↔ ∃ first, setting.IsFirst rows first ∧
        setting.inForce first = true ∧ diagnostic = diagnosticOf (setting.group first)
          (rows.filter fun row => setting.group row = setting.group first) := by
  rw [List.mem_filter, mem_recoveryModels, decide_eq_true_eq]
  constructor
  · rintro ⟨⟨first, isFirst, rfl⟩, priced⟩
    exact ⟨first, isFirst, (probe_iff isFirst).mp priced, rfl⟩
  · rintro ⟨first, isFirst, priced, rfl⟩
    exact ⟨⟨first, isFirst, rfl⟩, (probe_iff isFirst).mpr priced⟩

/-- **A target is supported if a revision is in force at the first event of one of its groups.** -/
theorem isSupported_iff {rows : List OutboxRow} {target : RepairTarget} :
    setting.isSupported rows target = true ↔ ∃ first, setting.IsFirst rows first ∧
      setting.inForce first = true ∧ setting.repairTarget first = some target := by
  unfold isSupported supportedPricingTargets
  cases target with
  | model name =>
    show List.contains _ _ = true ↔ _
    rw [List.contains_iff_mem, List.mem_dedup, List.mem_filterMap]
    constructor
    · rintro ⟨diagnostic, among, named⟩
      obtain ⟨first, isFirst, priced, rfl⟩ := mem_supported.mp among
      obtain ⟨isName, nonempty⟩ := Option.filter_eq_some_iff.mp named
      exact ⟨first, isFirst, priced,
        repairTarget_eq_model.mpr ⟨isName, of_decide_eq_true nonempty⟩⟩
    · rintro ⟨first, isFirst, priced, isTarget⟩
      obtain ⟨isName, nonempty⟩ := repairTarget_eq_model.mp isTarget
      exact ⟨_, mem_supported.mpr ⟨first, isFirst, priced, rfl⟩,
        Option.filter_eq_some_iff.mpr ⟨isName, decide_eq_true nonempty⟩⟩
  | codexFallback =>
    show List.any _ _ = true ↔ _
    rw [List.any_eq_true]
    constructor
    · rintro ⟨diagnostic, among, fallback⟩
      obtain ⟨first, isFirst, priced, rfl⟩ := mem_supported.mp among
      simp only [diagnosticOf, group, Bool.and_eq_true, beq_iff_eq, text_eq_codex] at fallback
      obtain ⟨⟨unnamed, provider⟩, adapter⟩ := fallback
      refine ⟨first, isFirst, priced, ?_⟩
      obtain ⟨target, isTarget⟩ := Option.isSome_iff_exists.mp (repairTarget_of_inForce priced)
      cases target with
      | model name =>
        obtain ⟨isName, nonempty⟩ := repairTarget_eq_model.mp isTarget
        rw [isName] at unnamed
        exact absurd unnamed nonempty
      | codexFallback => exact isTarget
    · rintro ⟨first, isFirst, priced, isTarget⟩
      obtain ⟨unnamed, codex⟩ := repairTarget_eq_codexFallback.mp isTarget
      refine ⟨_, mem_supported.mpr ⟨first, isFirst, priced, rfl⟩, ?_⟩
      simp only [diagnosticOf, group, unnamed, Bool.and_eq_true, beq_iff_eq, text_eq_codex]
      exact ⟨⟨rfl, codex.1⟩, codex.2⟩

/-- **The supported targets, as the active classes of a queue.** -/
def repairService (setting : RepairSetting) : Service OutboxRow RepairTarget where
  classOf := setting.repairTarget
  before := Earlier
  served := setting.resolves
  active := setting.isSupported
  active_of_subset := by
    intro rows rest target subset gone active
    obtain ⟨first, isFirst, priced, isTarget⟩ := isSupported_iff.mp active
    obtain ⟨earliest, isEarliest, same⟩ := exists_isFirst setting (subset isFirst.1)
    refine isSupported_iff.mpr ⟨earliest, isEarliest, ?_, repairTarget_of_group same ▸ isTarget⟩
    by_cases kept : earliest ∈ rest
    · have sameTime : earliest.ts = first.ts :=
        le_antisymm (isEarliest.2 first (subset isFirst.1) same.symm) (isFirst.2 earliest kept same)
      exact inForce_of_group same sameTime ▸ priced
    · exact inForce_of_resolves (gone earliest isEarliest.1 kept)
  active_own := by
    intro rows target
    rw [Bool.eq_iff_iff, isSupported_iff, isSupported_iff]
    constructor
    · rintro ⟨first, ⟨among, earliest⟩, priced, isTarget⟩
      refine ⟨first, ⟨(List.mem_filter.mp among).1, fun row rowAmong same => ?_⟩, priced, isTarget⟩
      exact earliest row (List.mem_filter.mpr
        ⟨rowAmong, decide_eq_true ((repairTarget_of_group same).trans isTarget)⟩) same
    · rintro ⟨first, ⟨among, earliest⟩, priced, isTarget⟩
      exact ⟨first, ⟨List.mem_filter.mpr ⟨among, decide_eq_true isTarget⟩, fun row rowAmong same =>
        earliest row (List.mem_filter.mp rowAmong).1 same⟩, priced, isTarget⟩
  active_of_first := by
    intro rows rest first target sorted isFirst served
    have among : first ∈ rows.filter fun row => setting.repairTarget row = some target := by
      rw [isFirst]
      exact List.mem_cons_self
    obtain ⟨inRows, isTarget⟩ := List.mem_filter.mp among
    have isTarget := of_decide_eq_true isTarget
    refine isSupported_iff.mpr
      ⟨first, ⟨inRows, fun row rowAmong same => ?_⟩, inForce_of_resolves served, isTarget⟩
    have inClass : row ∈ first :: rest := isFirst ▸ List.mem_filter.mpr
      ⟨rowAmong, decide_eq_true ((repairTarget_of_group same).trans isTarget)⟩
    have ordered : (first :: rest).Pairwise Earlier := isFirst ▸ sorted.filter _
    rcases List.mem_cons.mp inClass with rfl | later
    · exact le_refl _
    · rcases (List.pairwise_cons.mp ordered).1 row later with before | ⟨together, -⟩
      · exact before.le
      · exact together.le
  exists_of_active := by
    intro rows target active
    obtain ⟨first, isFirst, -, isTarget⟩ := isSupported_iff.mp active
    exact ⟨first, isFirst.1, isTarget⟩

end RepairSetting

end Toard.Pricing
