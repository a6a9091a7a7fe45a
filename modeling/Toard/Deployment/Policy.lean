/-
**The team's policies for its tools (`tool-deployment-repository.ts`, `tool-rollout-coordinator.ts`).**

A policy is one row a team and catalog item: the version it wants, the last one known to be good,
and the stage of its rollout. Rows are never deleted while the team is there, so the pair of team and
item stands for the row's id.

A leader's change (`mutateTeamPolicy`) sets a new target under a new seed and starts again in
preflight, or paused if the rights grow over the last known good version; `approveTeamRollout` starts
the canary of a paused one. The coordinator lists the open rollouts with their counters, decides
(`evaluateRollout`), and writes with `advance` or `rollbackToLastKnownGood`, which look at the phase
only. Times are in milliseconds, as in the language's dates. The audit rows are left out.
-/

import Toard.Library.Binary64
import Toard.Library.Keyed
import Toard.Deployment.Permissions

namespace Toard.Deployment

open Toard.Library

inductive ToolRolloutPhase where
  | preflight
  | canary
  | expand
  | active
  | paused
  | rollback
deriving DecidableEq

/-- A row of `team_tool_policies`. -/
structure PolicyRow where
  targetVersionId : String
  lastKnownGoodVersionId : Option String
  rolloutPhase : ToolRolloutPhase
  rolloutPercent : Nat
  rolloutSeed : String
  phaseStartedAt : Int
  enabled : Bool
deriving DecidableEq

abbrev PolicyKey := String × String

abbrev PolicyTable := OrderedMap PolicyKey PolicyRow

/-- A row of `tool_versions`. -/
structure ToolVersion where
  catalogItemId : String
  manifest : ToolDeploymentManifest
deriving DecidableEq

/-- An update of the row of a key that meets a condition, if there is one. -/
def updateWhere (policies : PolicyTable) (key : PolicyKey) (condition : PolicyRow → Bool)
    (change : PolicyRow → PolicyRow) : PolicyTable :=
  match policies.get key with
  | none => policies
  | some row => if condition row then policies.set key (change row) else policies

theorem get_updateWhere (policies : PolicyTable) (key : PolicyKey) (condition : PolicyRow → Bool)
    (change : PolicyRow → PolicyRow) (other : PolicyKey) :
    (updateWhere policies key condition change).get other =
      if other = key then (policies.get key).map fun row => if condition row then change row else row
      else policies.get other := by
  unfold updateWhere
  by_cases here : other = key
  · subst here
    rw [if_pos rfl]
    cases found : policies.get other with
    | none => exact found
    | some row => by_cases holds : condition row <;> simp [holds, OrderedMap.get_set, found]
  · rw [if_neg here]
    cases policies.get key with
    | none => rfl
    | some row => by_cases holds : condition row <;> simp [holds, OrderedMap.get_set, here]

theorem isSome_updateWhere (policies : PolicyTable) (key : PolicyKey) (condition : PolicyRow → Bool)
    (change : PolicyRow → PolicyRow) (other : PolicyKey) :
    ((updateWhere policies key condition change).get other).isSome
      = (policies.get other).isSome := by
  rw [get_updateWhere]
  split
  case isTrue here => rw [here, Option.isSome_map]
  case isFalse => rfl

theorem forall_updateWhere {policies : PolicyTable} {holds : PolicyKey → PolicyRow → Prop}
    (all : ∀ key row, policies.get key = some row → holds key row) {key : PolicyKey}
    {condition : PolicyRow → Bool} {change : PolicyRow → PolicyRow}
    (kept : ∀ row, policies.get key = some row → condition row = true → holds key (change row)) :
    ∀ other row, (updateWhere policies key condition change).get other = some row →
      holds other row := by
  intro other row found
  rw [get_updateWhere] at found
  split at found
  case isFalse => exact all other row found
  case isTrue here =>
    obtain ⟨before, isBefore, rfl⟩ := Option.map_eq_some_iff.mp found
    rw [here]
    split
    case isTrue holds => exact kept before isBefore holds
    case isFalse => exact all key before isBefore

/-! ### A leader's changes -/

section Leader

variable (newUrl : String → Option Url) (versions : String → Option ToolVersion)

/-- Whether the version needs approval over the last known good one. -/
def permissionDiffFromLastKnownGood (policies : PolicyTable) (teamId catalogItemId versionId : String) :
    Except String Bool :=
  match versions versionId with
  | none => .error "tool version not found"
  | some next =>
    if next.catalogItemId = catalogItemId then
      match ((policies.get (teamId, catalogItemId)).bind (·.lastKnownGoodVersionId)).bind versions with
      | none => .ok false
      | some previous => do
        let previous ← validateInstallManifest newUrl previous.manifest
        let next ← validateInstallManifest newUrl next.manifest
        return (diffToolPermissions previous next).approvalRequired
    else .error "tool version not found"

/-- The row is made anew, or kept with its last known good version. The new seed is the database's
random UUID. -/
def saveTeamPolicy (policies : PolicyTable) (teamId catalogItemId versionId : String)
    (rolloutPhase : ToolRolloutPhase) (rolloutPercent : Nat) (seed : String) (now : Int) :
    PolicyTable :=
  policies.set (teamId, catalogItemId)
    { targetVersionId := versionId
      lastKnownGoodVersionId :=
        (policies.get (teamId, catalogItemId)).bind (·.lastKnownGoodVersionId)
      rolloutPhase, rolloutPercent
      rolloutSeed := seed
      phaseStartedAt := now
      enabled := true }

structure SessionUser where
  teamId : Option String
  isLeader : Bool
deriving DecidableEq

inductive TeamPolicyMutationResult where
  | forbidden
  | saved (rolloutPhase : ToolRolloutPhase)
deriving DecidableEq

def mutateTeamPolicy (actor : SessionUser) (teamId catalogItemId versionId seed : String) (now : Int)
    (policies : PolicyTable) : Except String (TeamPolicyMutationResult × PolicyTable) :=
  if !actor.isLeader || actor.teamId != some teamId then .ok (.forbidden, policies)
  else do
    let approvalRequired ←
      permissionDiffFromLastKnownGood newUrl versions policies teamId catalogItemId versionId
    let rolloutPhase := if approvalRequired then .paused else .preflight
    return (.saved rolloutPhase,
      saveTeamPolicy policies teamId catalogItemId versionId rolloutPhase 0 seed now)

end Leader

/-- `approveTeamRolloutAction`: a paused rollout goes to its canary. -/
def approveTeamRollout (actor : SessionUser) (catalogItemId : String) (now : Int)
    (policies : PolicyTable) : PolicyTable :=
  match actor.teamId with
  | none => policies
  | some teamId =>
    if actor.isLeader then
      updateWhere policies (teamId, catalogItemId) (fun row => row.rolloutPhase == .paused)
        fun row => { row with rolloutPhase := .canary, rolloutPercent := 10, phaseStartedAt := now }
    else policies

/-! ### The coordinator -/

structure RolloutEvaluation where
  phase : ToolRolloutPhase
  eligible : Nat
  attempted : Nat
  failed : Nat
  phaseStartedAt : Int
deriving DecidableEq

inductive RolloutDecision where
  | hold
  | advance (nextPhase : ToolRolloutPhase) (percent : Nat)
  | rollback
deriving DecidableEq

def decimal (q : ℚ) : ℚ := (binary64 q).getD 0

def share (count : Nat) (q : ℚ) : Nat := (⌈(binary64 (count * decimal q)).getD 0⌉).toNat

def canaryTarget (eligible : Nat) : Nat := max 1 (share eligible (1 / 10))

def expandTarget (eligible : Nat) : Nat := max 1 (share eligible (1 / 2))

def reachesFailureThreshold (failed attempted : Nat) : Bool :=
  2 ≤ failed || (0 < attempted && decide (decimal (1 / 5) ≤ decimal (failed / attempted)))

def evaluateRollout (state : RolloutEvaluation) (now : Int) : RolloutDecision :=
  if reachesFailureThreshold state.failed state.attempted then .rollback
  else
    let elapsedMs := now - state.phaseStartedAt
    if state.phase == .canary && 30 * 60000 ≤ elapsedMs &&
        canaryTarget state.eligible ≤ state.attempted then
      .advance .expand 50
    else if state.phase == .expand && 60 * 60000 ≤ elapsedMs &&
        expandTarget state.eligible ≤ state.attempted then
      .advance .active 100
    else .hold

theorem evaluateRollout_advance {counters : RolloutEvaluation} {now : Int}
    {nextPhase : ToolRolloutPhase} {percent : Nat}
    (decided : evaluateRollout counters now = .advance nextPhase percent) :
    reachesFailureThreshold counters.failed counters.attempted = false ∧
    ((counters.phase = .canary ∧ 30 * 60000 ≤ now - counters.phaseStartedAt ∧
        canaryTarget counters.eligible ≤ counters.attempted ∧ nextPhase = .expand ∧ percent = 50) ∨
      (counters.phase = .expand ∧ 60 * 60000 ≤ now - counters.phaseStartedAt ∧
        expandTarget counters.eligible ≤ counters.attempted ∧ nextPhase = .active ∧
        percent = 100)) := by
  unfold evaluateRollout at decided
  split at decided
  case isTrue => cases decided
  case isFalse below =>
    refine ⟨by simpa using below, ?_⟩
    dsimp only at decided
    split at decided
    case isTrue passes =>
      simp only [Bool.and_eq_true, beq_iff_eq, decide_eq_true_eq] at passes
      cases decided
      exact .inl ⟨passes.1.1, passes.1.2, passes.2, rfl, rfl⟩
    case isFalse =>
      split at decided
      case isTrue passes =>
        simp only [Bool.and_eq_true, beq_iff_eq, decide_eq_true_eq] at passes
        cases decided
        exact .inr ⟨passes.1.1, passes.1.2, passes.2, rfl, rfl⟩
      case isFalse => cases decided

inductive ToolDeploymentStatus where
  | queued
  | applying
  | settingsRequired
  | installed
  | conflict
  | failed
  | rolledBack
  | excluded
  | unsupported
deriving DecidableEq

/-- A row of `tool_deployment_reports`, with what the coordinator reads. -/
structure ReportRow where
  desiredVersionId : Option String
  status : ToolDeploymentStatus
  rolloutId : Option String
  lastAttemptedAt : Int
deriving DecidableEq

/-- A row of `device_tool_inventory_snapshots`. -/
structure DeviceRow where
  userId : String
  tokenId : String
  fingerprint : String
deriving DecidableEq

/-- The tables that the counters come from: the users with their teams, the devices, the reports. -/
structure Fleet where
  users : List (String × Option String)
  devices : List DeviceRow
  reports : List ReportRow
deriving DecidableEq

namespace Fleet

def members (fleet : Fleet) (teamId : String) : List String :=
  (fleet.users.filter fun user => user.2 == some teamId).map Prod.fst

def eligible (fleet : Fleet) (teamId : String) : List DeviceRow :=
  fleet.devices.filter fun device => (fleet.members teamId).contains device.userId

def attempts (fleet : Fleet) (row : PolicyRow) : List ReportRow :=
  fleet.reports.filter fun report => report.rolloutId == some row.rolloutSeed &&
    report.desiredVersionId == some row.targetVersionId &&
    decide (row.phaseStartedAt ≤ report.lastAttemptedAt)

end Fleet

def isOpenPhase (phase : ToolRolloutPhase) : Bool :=
  phase == .preflight || phase == .canary || phase == .expand

def evaluation (fleet : Fleet) (teamId : String) (row : PolicyRow) : RolloutEvaluation where
  phase := row.rolloutPhase
  eligible := (fleet.eligible teamId).length
  attempted := (fleet.attempts row).length
  failed := ((fleet.attempts row).filter fun report =>
    report.status == .failed || report.status == .rolledBack).length
  phaseStartedAt := row.phaseStartedAt

/-- `listOpenRollouts`: the enabled rows in an open phase, of the teams that have a user. -/
def listOpenRollouts (policies : PolicyTable) (fleet : Fleet) : List (PolicyKey × RolloutEvaluation) :=
  (policies.entries.filter fun entry => entry.2.enabled && isOpenPhase entry.2.rolloutPhase &&
      !(fleet.members entry.1.1).isEmpty).map
    fun entry => (entry.1, evaluation fleet entry.1.1 entry.2)

namespace PolicyRow

/-- A row whose rollout goes on; the target of an active one is the last known good version. -/
def advanced (row : PolicyRow) (phase : ToolRolloutPhase) (percent : Nat) (now : Int) : PolicyRow :=
  { row with
    rolloutPhase := phase
    rolloutPercent := percent
    phaseStartedAt := now
    lastKnownGoodVersionId :=
      if phase = .active then some row.targetVersionId else row.lastKnownGoodVersionId }

/-- A row that goes back to its last known good version, or stops without one. -/
def rolledBack (row : PolicyRow) (now : Int) : PolicyRow :=
  { row with
    targetVersionId := row.lastKnownGoodVersionId.getD row.targetVersionId
    rolloutPhase := if row.lastKnownGoodVersionId.isNone then .paused else .rollback
    rolloutPercent := if row.lastKnownGoodVersionId.isNone then 0 else 100
    enabled := row.lastKnownGoodVersionId.isSome
    phaseStartedAt := now }

end PolicyRow

def advance (policies : PolicyTable) (key : PolicyKey) (phase : ToolRolloutPhase) (percent : Nat)
    (now : Int) : PolicyTable :=
  updateWhere policies key (fun row => isOpenPhase row.rolloutPhase)
    fun row => row.advanced phase percent now

def rollbackToLastKnownGood (policies : PolicyTable) (key : PolicyKey) (now : Int) : PolicyTable :=
  updateWhere policies key (fun row => row.rolloutPhase == .canary || row.rolloutPhase == .expand)
    fun row => row.rolledBack now

def coordinate (policies : PolicyTable) (rollout : PolicyKey × RolloutEvaluation) (now : Int) :
    PolicyTable :=
  if rollout.2.phase = .preflight then advance policies rollout.1 .canary 10 now
  else
    match evaluateRollout rollout.2 now with
    | .hold => policies
    | .advance nextPhase percent => advance policies rollout.1 nextPhase percent now
    | .rollback => rollbackToLastKnownGood policies rollout.1 now

/-- `runToolRolloutCoordinator`, when nothing else writes meanwhile. -/
def runToolRolloutCoordinator (policies : PolicyTable) (fleet : Fleet) (now : Int) : PolicyTable :=
  (listOpenRollouts policies fleet).foldl (fun table rollout => coordinate table rollout now) policies

/-- What the coordinator makes of the row of a rollout it has listed. -/
def coordinateRow (counters : RolloutEvaluation) (now : Int) (row : PolicyRow) : PolicyRow :=
  if counters.phase = .preflight then
    if isOpenPhase row.rolloutPhase then row.advanced .canary 10 now else row
  else
    match evaluateRollout counters now with
    | .hold => row
    | .advance nextPhase percent =>
      if isOpenPhase row.rolloutPhase then row.advanced nextPhase percent now else row
    | .rollback =>
      if row.rolloutPhase == .canary || row.rolloutPhase == .expand then row.rolledBack now else row

theorem isSome_coordinate (policies : PolicyTable) (rollout : PolicyKey × RolloutEvaluation)
    (now : Int) (key : PolicyKey) :
    ((coordinate policies rollout now).get key).isSome = (policies.get key).isSome := by
  unfold coordinate
  split
  case isTrue => exact isSome_updateWhere _ _ _ _ _
  case isFalse =>
    split
    case h_1 => rfl
    case h_2 => exact isSome_updateWhere _ _ _ _ _
    case h_3 => exact isSome_updateWhere _ _ _ _ _

def movesTo (counters : RolloutEvaluation) (now : Int) : Option (ToolRolloutPhase × Nat) :=
  if counters.phase = .preflight then some (.canary, 10)
  else
    match evaluateRollout counters now with
    | .advance nextPhase percent => some (nextPhase, percent)
    | _ => none

theorem forall_coordinate {policies : PolicyTable} {holds : PolicyKey → PolicyRow → Prop}
    (all : ∀ key row, policies.get key = some row → holds key row)
    {rollout : PolicyKey × RolloutEvaluation} {now : Int}
    (advanced : ∀ phase percent, movesTo rollout.2 now = some (phase, percent) → ∀ row,
      policies.get rollout.1 = some row → isOpenPhase row.rolloutPhase = true →
      holds rollout.1 (row.advanced phase percent now))
    (rolledBack : ∀ row, policies.get rollout.1 = some row → holds rollout.1 (row.rolledBack now)) :
    ∀ key row, (coordinate policies rollout now).get key = some row → holds key row := by
  unfold coordinate
  unfold movesTo at advanced
  split
  case isTrue preflight =>
    rw [if_pos preflight] at advanced
    exact forall_updateWhere all (advanced _ _ rfl)
  case isFalse later =>
    rw [if_neg later] at advanced
    split
    case h_1 => exact all
    case h_2 nextPhase percent decided =>
      rw [decided] at advanced
      exact forall_updateWhere all (advanced _ _ rfl)
    case h_3 => exact forall_updateWhere all fun row found _ => rolledBack row found

end Toard.Deployment
