/-
**Pricing history jobs and their database (`pricing-history.ts`).**

A job walks through the commits of the price list and keeps, in `pricing_history_candidates`, one
row for each stretch of time in which a model had one price; the row whose `valid_until` is null is
the model's open row. When the last commit is done the job is promoted: its closed rows become
pricing revisions.

Times are milliseconds. A `NUMERIC` column gives back the number it was given; a `JSONB` column
gives back what `JSON.stringify` made of it.
-/

import Toard.Pricing.Price

namespace Toard.Pricing

open Toard.Library (OrderedMap)

/-! ### Jobs -/

/-- A commit of the price list; its time is a valid date (`parseCommitRefs` of the source). -/
structure PricingHistoryCommitRef where
  sha : String
  committedAt : Int
deriving DecidableEq

structure PricingHistorySnapshot where
  ref : PricingHistoryCommitRef
  pricing : PricingMap
deriving DecidableEq

inductive HistoricalPricingJobState where
  | pending
  | listing
  | fetching
  | promoting
  | completed
  | waitingSource
  | failed
deriving DecidableEq

/-- What JavaScript's `trim` removes. -/
def isWhiteSpace (c : Char) : Bool :=
  c.toNat ∈ [0x9, 0xA, 0xB, 0xC, 0xD, 0x20, 0xA0, 0x1680, 0x2028, 0x2029, 0x202F, 0x205F, 0x3000,
    0xFEFF] || (0x2000 ≤ c.toNat && c.toNat ≤ 0x200A)

/-- What a job is made for. `jobInput` finds distinct models with a name, and a range that is not
empty. -/
structure JobInput where
  rangeFrom : Int
  rangeTo : Int
  models : List String
  range : rangeFrom < rangeTo
  distinct : models.Nodup
  named : ∀ model ∈ models, model.toList.all isWhiteSpace = false

structure HistoricalPricingJob extends JobInput where
  state : HistoricalPricingJobState
  commitRefs : List PricingHistoryCommitRef
  listPage : Nat
  nextCommitIndex : Nat
  nextAttemptAt : Option Int
  rateLimitResetAt : Option Int
  consecutiveFailures : Nat
  lastError : Option String

/-! ### Candidate rows -/

structure PriceColumns where
  inputPricePerMtok : JsNumber
  outputPricePerMtok : JsNumber
  cacheReadPricePerMtok : Option JsNumber
  cacheCreationPricePerMtok : Option JsNumber
  inputPriceAbove200kPerMtok : Option JsNumber
  outputPriceAbove200kPerMtok : Option JsNumber
  fastMultiplier : JsNumber
deriving DecidableEq

def ModelPricing.columns (value : ModelPricing) : PriceColumns where
  inputPricePerMtok := value.inputPerM
  outputPricePerMtok := value.outputPerM
  cacheReadPricePerMtok := value.cacheReadPerM
  cacheCreationPricePerMtok := value.cacheCreatePerM
  inputPriceAbove200kPerMtok := value.inputAbove200kPerM
  outputPriceAbove200kPerMtok := value.outputAbove200kPerM
  fastMultiplier := value.fastMultiplier.getD (.finite 1)

/-- A row of `pricing_history_candidates`, of one job. -/
structure CandidateRow where
  modelId : String
  sourceModelId : String
  effectiveAt : Int
  validUntil : Option Int
  prices : PriceColumns
  sourceCommitSha : String
  sourceCommittedAt : Int
  pricingDetails : PricingDetails (Option ℚ)
deriving DecidableEq

/-- An open row as a transaction holds it: read from the table, or just written. -/
structure OpenCandidateRow where
  modelId : String
  sourceModelId : String
  effectiveAt : Int
  prices : PriceColumns
  sourceCommitSha : String
  sourceCommittedAt : Int
  pricingDetails : PricingDetails JsNumber
deriving DecidableEq

def CandidateRow.read (row : CandidateRow) : OpenCandidateRow where
  modelId := row.modelId
  sourceModelId := row.sourceModelId
  effectiveAt := row.effectiveAt
  prices := row.prices
  sourceCommitSha := row.sourceCommitSha
  sourceCommittedAt := row.sourceCommittedAt
  pricingDetails := row.pricingDetails.parse

def OpenCandidateRow.write (row : OpenCandidateRow) : CandidateRow where
  modelId := row.modelId
  sourceModelId := row.sourceModelId
  effectiveAt := row.effectiveAt
  validUntil := none
  prices := row.prices
  sourceCommitSha := row.sourceCommitSha
  sourceCommittedAt := row.sourceCommittedAt
  pricingDetails := row.pricingDetails.stringify

def candidatePricing (row : OpenCandidateRow) : ModelPricing where
  toPricingDetails := row.pricingDetails
  inputPerM := row.prices.inputPricePerMtok
  outputPerM := row.prices.outputPricePerMtok
  cacheReadPerM := row.prices.cacheReadPricePerMtok
  cacheCreatePerM := row.prices.cacheCreationPricePerMtok
  inputAbove200kPerM := row.prices.inputPriceAbove200kPerMtok
  outputAbove200kPerM := row.prices.outputPriceAbove200kPerMtok
  fastMultiplier := some row.prices.fastMultiplier

def openCandidate (model : String) (resolved : ResolvedPricingEntry) (effectiveAt : Int)
    (ref : PricingHistoryCommitRef) : OpenCandidateRow where
  modelId := model
  sourceModelId := resolved.modelId
  effectiveAt := effectiveAt
  prices := resolved.pricing.columns
  sourceCommitSha := ref.sha
  sourceCommittedAt := ref.committedAt
  pricingDetails := pricingDetails resolved.pricing

/-- `UPDATE … SET valid_until WHERE model_id AND effective_at`. -/
def closeRow (model : String) (effectiveAt validUntil : Int) (rows : List CandidateRow) :
    List CandidateRow :=
  rows.map fun row =>
    if row.modelId = model ∧ row.effectiveAt = effectiveAt then
      { row with validUntil := some validUntil }
    else row

/-- `DELETE … WHERE model_id AND effective_at`. -/
def deleteRow (model : String) (effectiveAt : Int) (rows : List CandidateRow) :
    List CandidateRow :=
  rows.filter fun row => ¬ (row.modelId = model ∧ row.effectiveAt = effectiveAt)

/-- `INSERT … ON CONFLICT (job_id, model_id, effective_at) DO UPDATE`, every column replaced. -/
def upsertRow (new : CandidateRow) (rows : List CandidateRow) : List CandidateRow :=
  if rows.any fun row => row.modelId = new.modelId ∧ row.effectiveAt = new.effectiveAt then
    rows.map fun row =>
      if row.modelId = new.modelId ∧ row.effectiveAt = new.effectiveAt then new else row
  else rows ++ [new]

/-! ### One snapshot -/

/-- What a transaction of `saveSnapshots` works on: the table, and its two maps. -/
structure SnapshotWork where
  candidates : List CandidateRow
  opened : String → Option OpenCandidateRow
  seen : String → Bool

/-- Whether the open row goes on: the snapshot has the same price from the same entry. -/
def continues (previous : Option OpenCandidateRow) (resolved : Option ResolvedPricingEntry) :
    Bool :=
  match previous, resolved with
  | some previous, some resolved =>
    previous.sourceModelId == resolved.modelId &&
      samePricing (candidatePricing previous) resolved.pricing
  | _, _ => false

def JobInput.boundary (job : JobInput) (ref : PricingHistoryCommitRef) : Int :=
  if ref.committedAt < job.rangeFrom then job.rangeFrom else ref.committedAt

/-- The model's open row ends at the boundary, or is dropped if it would be empty. -/
def SnapshotWork.closePrevious (work : SnapshotWork) (model : String) (boundary : Int) :
    SnapshotWork :=
  match work.opened model with
  | none => work
  | some previous => {
      candidates :=
        if boundary > previous.effectiveAt then
          closeRow model previous.effectiveAt boundary work.candidates
        else deleteRow model previous.effectiveAt work.candidates
      opened := Function.update work.opened model none
      seen := work.seen }

def SnapshotWork.insert (work : SnapshotWork) (row : OpenCandidateRow) : SnapshotWork where
  candidates := upsertRow row.write work.candidates
  opened := Function.update work.opened row.modelId (some row)
  seen := Function.update work.seen row.modelId true

def applyModel (job : JobInput) (snapshot : PricingHistorySnapshot)
    (work : SnapshotWork) (model : String) : SnapshotWork :=
  let boundary := job.boundary snapshot.ref
  let resolved := resolvePricingEntry model snapshot.pricing
  if continues (work.opened model) resolved then work
  else
    let work := work.closePrevious model boundary
    -- A model that appears for the first time is priced from the start of the range on.
    let effectiveAt := if work.seen model then boundary else job.rangeFrom
    match resolved with
    | none => work
    | some resolved =>
      if effectiveAt ≥ job.rangeTo then work
      else work.insert (openCandidate model resolved effectiveAt snapshot.ref)

def applySnapshot (job : JobInput) (work : SnapshotWork)
    (snapshot : PricingHistorySnapshot) : SnapshotWork :=
  job.models.foldl (applyModel job snapshot) work

/-! ### The repository -/

/-- A row of `pricing_revisions`. -/
structure PricingRevision where
  modelId : String
  effectiveAt : Int
  validUntil : Option Int
  prices : PriceColumns
  source : String
  authoritative : Bool
  sourceRef : Option String
  sourceModelId : Option String
  observedAt : Int
  pricingDetails : PricingDetails (Option ℚ)
deriving DecidableEq

def HISTORY_SOURCE : String := "litellm-git-history"

structure PricingHistory where
  job : HistoricalPricingJob
  candidates : List CandidateRow
  revisions : List PricingRevision

namespace PricingHistory

/-- What a transaction reads at its start: the open rows, and the models that have rows. -/
def load (candidates : List CandidateRow) : SnapshotWork where
  candidates := candidates
  opened := fun model =>
    ((candidates.filter fun row => row.validUntil = none).filter fun row =>
      row.modelId = model).getLast?.map CandidateRow.read
  seen := fun model => candidates.any fun row => row.modelId = model

/-- After the last commit: open rows end with the range, and empty ones are dropped. -/
def finishRows (rangeTo : Int) (rows : List CandidateRow) : List CandidateRow :=
  (rows.map fun row =>
    if row.validUntil = none ∧ row.effectiveAt < rangeTo then
      { row with validUntil := some rangeTo }
    else row).filter fun row => row.validUntil ≠ none

def saveSnapshots (db : PricingHistory) (snapshots : List PricingHistorySnapshot) :
    Except String PricingHistory :=
  let job := db.job
  if job.state ≠ .fetching then .error "historical pricing job was superseded"
  else if ((job.commitRefs.drop job.nextCommitIndex).take snapshots.length).map (·.sha)
      ≠ snapshots.map (·.ref.sha) then
    .error "historical pricing snapshot cursor mismatch"
  else
    let work := snapshots.foldl (applySnapshot job.toJobInput) (load db.candidates)
    let nextIndex := job.nextCommitIndex + snapshots.length
    let finished := nextIndex = job.commitRefs.length
    .ok { db with
      candidates := if finished then finishRows job.rangeTo work.candidates else work.candidates
      job := { job with
        state := if finished then .promoting else .fetching
        nextCommitIndex := nextIndex
        consecutiveFailures := 0
        lastError := none
        nextAttemptAt := none
        rateLimitResetAt := none } }

def skipSnapshot (db : PricingHistory) (ref : PricingHistoryCommitRef) :
    Except String PricingHistory :=
  let job := db.job
  if job.state ≠ .fetching then .error "historical pricing job was superseded"
  else if (job.commitRefs[job.nextCommitIndex]?).map (·.sha) ≠ some ref.sha then
    .error "historical pricing snapshot cursor mismatch"
  else
    let nextIndex := job.nextCommitIndex + 1
    .ok { db with
      job := { job with
        state := if nextIndex = job.commitRefs.length then .promoting else .fetching
        nextCommitIndex := nextIndex
        consecutiveFailures := 0
        nextAttemptAt := none
        rateLimitResetAt := none
        lastError := some "invalid pricing snapshot skipped" } }

def revisionOf (observedAt : Int) (row : CandidateRow) : PricingRevision where
  modelId := row.modelId
  effectiveAt := row.effectiveAt
  validUntil := row.validUntil
  prices := row.prices
  source := HISTORY_SOURCE
  authoritative := true
  sourceRef := some row.sourceCommitSha
  sourceModelId := some row.sourceModelId
  observedAt := observedAt
  pricingDetails := row.pricingDetails

/-- `INSERT … ON CONFLICT (model_id, effective_at, source) DO NOTHING`. -/
def insertRevision (revisions : List PricingRevision) (new : PricingRevision) :
    List PricingRevision :=
  if revisions.any fun revision => revision.modelId = new.modelId ∧
      revision.effectiveAt = new.effectiveAt ∧ revision.source = new.source then
    revisions
  else revisions ++ [new]

structure Promotion where
  insertedRevisions : Nat
  evidenceFound : Bool
deriving DecidableEq

def promote (db : PricingHistory) (at_ : Int) : Except String (Promotion × PricingHistory) :=
  if db.job.state ≠ .promoting then .error "historical pricing promotion was superseded"
  else
    let closed := db.candidates.filter fun row => row.validUntil ≠ none
    -- The rows go in by model and start; the order decides nothing, as their keys are distinct.
    let revisions := (closed.map (revisionOf at_)).foldl insertRevision db.revisions
    .ok ({ insertedRevisions := revisions.length - db.revisions.length
           evidenceFound := 0 < closed.length },
      { db with
        revisions := revisions
        job := { db.job with
          state := .completed
          nextAttemptAt := none
          rateLimitResetAt := none
          lastError := none } })

def waitForSource (db : PricingHistory) (nextAttemptAt : Int) (rateLimitResetAt : Option Int)
    (error : String) : Except String PricingHistory :=
  if db.job.state ∈ [.pending, .listing, .fetching] then
    .ok { db with
      job := { db.job with
        state := .waitingSource
        nextAttemptAt := some nextAttemptAt
        rateLimitResetAt := rateLimitResetAt
        consecutiveFailures := db.job.consecutiveFailures + 1
        lastError := some error } }
  else .error "historical pricing job update was superseded"

def resumeState (job : HistoricalPricingJob) : HistoricalPricingJobState :=
  if job.listPage > 0 then .listing
  else if job.commitRefs ≠ [] then .fetching
  else .pending

def resume (db : PricingHistory) : Except String PricingHistory :=
  if db.job.state = .waitingSource then
    .ok { db with
      job := { db.job with
        state := resumeState db.job
        nextAttemptAt := none
        rateLimitResetAt := none } }
  else .error "historical pricing job update was superseded"

end PricingHistory

/-! ### Runs of one job -/

/-- A call of the worker. A restart loses what the worker had in memory, and it has nothing there
between two calls. -/
inductive HistoryAction where
  | saveSnapshots (snapshots : List PricingHistorySnapshot)
  | skipSnapshot (ref : PricingHistoryCommitRef)
  | waitForSource (nextAttemptAt : Int) (rateLimitResetAt : Option Int) (error : String)
  | resume
  | promote (at_ : Int)
  | restart

/-- The database and what became of each commit so far: its prices were saved, or it was
skipped. -/
structure HistoryRun where
  db : PricingHistory
  outcomes : List (Option PricingHistorySnapshot)

namespace HistoryRun

def next (run : HistoryRun) : HistoryAction → Option HistoryRun
  | .saveSnapshots snapshots => some <|
    match run.db.saveSnapshots snapshots with
    | .ok db => { db := db, outcomes := run.outcomes ++ snapshots.map some }
    | .error _ => run
  | .skipSnapshot ref => some <|
    match run.db.skipSnapshot ref with
    | .ok db => { db := db, outcomes := run.outcomes ++ [none] }
    | .error _ => run
  | .waitForSource nextAttemptAt rateLimitResetAt error => some <|
    match run.db.waitForSource nextAttemptAt rateLimitResetAt error with
    | .ok db => { run with db := db }
    | .error _ => run
  | .resume => some <|
    match run.db.resume with
    | .ok db => { run with db := db }
    | .error _ => run
  | .promote at_ => some <|
    match run.db.promote at_ with
    | .ok (_, db) => { run with db := db }
    | .error _ => run
  | .restart => some run

def saved (run : HistoryRun) : List PricingHistorySnapshot :=
  run.outcomes.filterMap id

end HistoryRun

/-! ### A small job -/

def priceList (key : String) (rate : ℚ) : PricingMap :=
  OrderedMap.empty.set key {
    contextTiers := [], cacheCreate1hPerM := none, contextScope := none
    inputPerM := .finite rate, outputPerM := .finite rate
    cacheReadPerM := none, cacheCreatePerM := none
    inputAbove200kPerM := none, outputAbove200kPerM := none, fastMultiplier := none }

/-- A job for the model `m` and the instants 0 to 9, with its commits listed. -/
def listedJob (commitRefs : List PricingHistoryCommitRef) : PricingHistory where
  job := {
    rangeFrom := 0, rangeTo := 10, models := ["m"]
    range := by decide, distinct := by decide, named := by decide
    state := .fetching, commitRefs := commitRefs, listPage := 0, nextCommitIndex := 0
    nextAttemptAt := none, rateLimitResetAt := none, consecutiveFailures := 0, lastError := none }
  candidates := []
  revisions := []

/-- The baseline does not price `m`, the second commit does. -/
def pricedLate : List PricingHistorySnapshot :=
  [⟨⟨"a", 0⟩, priceList "other" 1⟩, ⟨⟨"b", 5⟩, priceList "m" 2⟩]

end Toard.Pricing
