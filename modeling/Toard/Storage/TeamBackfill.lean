/-
**Team attribution of usage that only the rollup has.**

`backfillRollupOnly` gives the unassigned rollup rows of a user to a team. A call takes the buckets
that its job has staged, or else selects some; stages the unassigned rows of both 15-minute tables;
deletes them; inserts the staged rows as rows of the team; verifies; completes; and drops what it
staged. Each statement is a step. A call that fails or whose process dies leaves what it has done,
and the job calls again.

The two tables differ in what their rows are grouped by besides bucket, user and team, so a table
with what is staged of it is a `Layer` over that type. The read fence and the time zone jobs, which
Postgres keeps, hold no usage and are left out.
-/

import Toard.Library.MergedSums
import Toard.Storage.Rollup

namespace Toard.Storage

open Toard.Library

/-! ### Tables -/

/-- What rows of `usage_15m_rollup` are grouped by besides bucket, user and team. -/
structure LegacyGroup where
  providerKey : String
  sessionId : String
  model : String
  host : String
deriving DecidableEq

/-- What rows of `usage_15m_rollup_v2` are grouped by besides bucket, user and team. -/
structure PricedGroup where
  providerKey : String
  sessionId : String
  model : String
  host : String
  pricingRevisionId : String
  costStatus : CostStatus
deriving DecidableEq

structure TeamRow (γ : Type) where
  bucket : Int
  userId : String
  teamId : String
  group : γ
  totals : Totals
  version : Int
deriving DecidableEq

/-- A row of `team_attribution_rollup_staging`, of one of the two layers. -/
structure StagedRow (γ : Type) where
  jobId : String
  bucket : Int
  userId : String
  group : γ
  totals : Totals
  version : Int
  createdAt : Int
deriving DecidableEq

section Layer

variable {γ : Type}

def TeamRow.key (row : TeamRow γ) : Int × String × String × γ :=
  (row.bucket, row.userId, row.teamId, row.group)

def StagedRow.key (row : StagedRow γ) : String × Int × String × γ :=
  (row.jobId, row.bucket, row.userId, row.group)

structure Layer (γ : Type) where
  rollup : List (TeamRow γ)
  staged : List (StagedRow γ)

structure TeamAttributionRequest where
  userId : String
  teamId : String
  jobId : String
  assigned : teamId ≠ ""

def TeamAttributionRequest.unassigned (request : TeamAttributionRequest) (row : TeamRow γ) : Bool :=
  row.userId = request.userId && row.teamId = ""

variable [DecidableEq γ]

/-- The table `FINAL`. -/
def Layer.final (layer : Layer γ) : List (TeamRow γ) :=
  merged TeamRow.key TeamRow.version layer.rollup

/-- What the job has staged, `FINAL`. -/
def Layer.jobRows (layer : Layer γ) (request : TeamAttributionRequest) : List (StagedRow γ) :=
  (merged StagedRow.key StagedRow.version layer.staged).filter fun row => row.jobId = request.jobId

/-- The unassigned rows of the buckets, `FINAL`. -/
def Layer.unassignedRows (layer : Layer γ) (request : TeamAttributionRequest) (buckets : List Int) :
    List (TeamRow γ) :=
  layer.final.filter fun row => request.unassigned row && row.bucket ∈ buckets

/-! ### Statements -/

def TeamRow.stagedFor (row : TeamRow γ) (jobId : String) (stageVersion now : Int) : StagedRow γ where
  jobId := jobId
  bucket := row.bucket
  userId := row.userId
  group := row.group
  totals := row.totals
  version := max row.version stageVersion
  createdAt := now

def StagedRow.replacement (row : StagedRow γ) (teamId : String) (replacementVersion : Int) :
    TeamRow γ where
  bucket := row.bucket
  userId := row.userId
  teamId := teamId
  group := row.group
  totals := row.totals
  version := max (row.version + 1) replacementVersion

/-- `INSERT INTO team_attribution_rollup_staging … SELECT … FROM … FINAL`. -/
def Layer.stage (layer : Layer γ) (request : TeamAttributionRequest) (buckets : List Int)
    (stageVersion now : Int) : Layer γ :=
  { layer with
    staged := layer.staged ++ (layer.unassignedRows request buckets).map fun row =>
      row.stagedFor request.jobId stageVersion now }

/-- `ALTER TABLE … DELETE WHERE user_id = … AND team_id = '' AND bucket_15m IN …`. -/
def Layer.deleteOld (layer : Layer γ) (request : TeamAttributionRequest) (buckets : List Int) :
    Layer γ :=
  { layer with
    rollup := layer.rollup.filter fun row => !(request.unassigned row && row.bucket ∈ buckets) }

/-- `INSERT INTO … SELECT … FROM team_attribution_rollup_staging FINAL`. -/
def Layer.insertReplacement (layer : Layer γ) (request : TeamAttributionRequest)
    (replacementVersion : Int) : Layer γ :=
  { layer with
    rollup := layer.rollup ++ (layer.jobRows request).map fun row =>
      row.replacement request.teamId replacementVersion }

/-- `ALTER TABLE team_attribution_rollup_staging DELETE WHERE job_id = …`. -/
def Layer.cleanup (layer : Layer γ) (request : TeamAttributionRequest) : Layer γ :=
  { layer with staged := layer.staged.filter fun row => row.jobId ≠ request.jobId }

def stagingTtlMs : Int := 7 * 24 * 60 * 60 * 1000

/-- The staging table's `TTL toDateTime(created_at) + INTERVAL 7 DAY DELETE`. -/
def Layer.expireStaged (layer : Layer γ) (now : Int) : Layer γ :=
  { layer with staged := layer.staged.filter fun row => now < row.createdAt + stagingTtlMs }

def Layer.stagedBuckets (layer : Layer γ) (request : TeamAttributionRequest) : List Int :=
  ((layer.jobRows request).map StagedRow.bucket).dedup.insertionSort (· ≤ ·)

/-- What a call may select: its batch limit, the end of the time that only the rollup has, and the
time range of the assignment. -/
structure Selection where
  limit : Int
  rawFullFrom : Int
  fromTs : Option Int
  toTs : Option Int

def Selection.admits (selection : Selection) (bucket : Int) : Bool :=
  bucket * fifteenMinutesMs < selection.rawFullFrom &&
    selection.fromTs.all (fun fromTs => fromTs ≤ bucket * fifteenMinutesMs) &&
    selection.toTs.all fun toTs => bucket * fifteenMinutesMs < toTs

def Layer.selectedBuckets (layer : Layer γ) (request : TeamAttributionRequest)
    (selection : Selection) : List Int :=
  (((layer.final.filter fun row => request.unassigned row && selection.admits row.bucket).map
    TeamRow.bucket).dedup.insertionSort (· ≤ ·)).take (min (max selection.limit 1) 16).toNat

/-- The verification: no unassigned row is left in the buckets, and the team's rows there have no
fewer events than what is staged. -/
def Layer.verified (layer : Layer γ) (request : TeamAttributionRequest) (buckets : List Int) : Bool :=
  (layer.unassignedRows request buckets).isEmpty &&
    ((layer.jobRows request).map fun row => row.totals.eventCount).sum ≤
      ((layer.final.filter fun row => row.userId = request.userId && row.teamId = request.teamId
        && row.bucket ∈ buckets).map fun row => row.totals.eventCount).sum

end Layer

/-! ### Calls -/

inductive CallPoint where
  | selected
  | stagedV2
  | stagedLegacy
  | deletedV2
  | deletedLegacy
  | insertedV2
  | insertedLegacy
  | verified
  | completed
deriving DecidableEq

/-- A call with its buckets, and the version of the rows it writes at this point. -/
structure BackfillCall where
  buckets : List Int
  version : Int
  point : CallPoint
deriving DecidableEq

structure BackfillState where
  now : Int
  v2 : Layer PricedGroup
  legacy : Layer LegacyGroup
  call : Option BackfillCall

inductive BackfillAction where
  | tick (ms : Nat)
  | begin (selection : Selection)
  | stageV2
  | stageLegacy
  | deleteV2
  | deleteLegacy
  | insertV2
  | insertLegacy
  | verify
  | complete
  | cleanup (succeeded : Bool)
  | interrupt
  | expireStaged

def BackfillState.callAt (s : BackfillState) (point : CallPoint) : Option BackfillCall :=
  s.call.filter fun call => call.point = point

def BackfillState.goTo (s : BackfillState) (call : BackfillCall) (point : CallPoint) : BackfillState :=
  { s with call := some { call with point := point } }

variable (request : TeamAttributionRequest)

/-- A call takes the staged buckets of its job, or selects some; with none it returns at once. -/
def beginCall (s : BackfillState) (selection : Selection) : Option BackfillState :=
  if s.call.isSome then none
  else
    let staged := s.v2.stagedBuckets request
    let buckets := if staged = [] then s.v2.selectedBuckets request selection else staged
    if buckets = [] then some s
    else some { s with call := some ⟨buckets, s.now, .selected⟩ }

def backfillNext (s : BackfillState) : BackfillAction → Option BackfillState
  | .tick ms => some { s with now := s.now + ms }
  | .begin selection => beginCall request s selection
  | .stageV2 => (s.callAt .selected).map fun call =>
      { s with v2 := s.v2.stage request call.buckets s.now s.now }.goTo
        { call with version := s.now } .stagedV2
  | .stageLegacy => (s.callAt .stagedV2).map fun call =>
      { s with legacy := s.legacy.stage request call.buckets call.version s.now }.goTo
        call .stagedLegacy
  | .deleteV2 => (s.callAt .stagedLegacy).map fun call =>
      { s with v2 := s.v2.deleteOld request call.buckets }.goTo call .deletedV2
  | .deleteLegacy => (s.callAt .deletedV2).map fun call =>
      { s with legacy := s.legacy.deleteOld request call.buckets }.goTo call .deletedLegacy
  | .insertV2 => (s.callAt .deletedLegacy).map fun call =>
      { s with v2 := s.v2.insertReplacement request (s.now + 1) }.goTo
        { call with version := s.now + 1 } .insertedV2
  | .insertLegacy => (s.callAt .insertedV2).map fun call =>
      { s with legacy := s.legacy.insertReplacement request call.version }.goTo call .insertedLegacy
  | .verify => (s.callAt .insertedLegacy).map fun call =>
      -- `throw new Error("team attribution rollup verification failed")`
      if s.v2.verified request call.buckets then s.goTo call .verified else { s with call := none }
  | .complete => (s.callAt .verified).map fun call => s.goTo call .completed
  -- A failed cleanup is ignored: the call returns all the same.
  | .cleanup succeeded => (s.callAt .completed).map fun _ =>
      if succeeded then
        { s with
          v2 := s.v2.cleanup request
          legacy := s.legacy.cleanup request
          call := none }
      else { s with call := none }
  | .interrupt => some { s with call := none }
  | .expireStaged => some { s with
      v2 := s.v2.expireStaged s.now
      legacy := s.legacy.expireStaged s.now }

end Toard.Storage
