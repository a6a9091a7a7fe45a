/-
**The status row of the pricing repair.**

One row of `pricing_repair_status` says whether a repair is due and up to which time. Ingestion asks
for a repair with `enqueue_pricing_repair`, a worker claims it, and reports progress or failure for
the generation it claimed; a pricing sync starts a new generation. A run that has not reported for
five minutes is claimed again, and its worker may still report.

* **`repair_requests_covered`**: if no overtaken run reports and no reset forgets a request, an idle
  status has covered all requests, and a run during which a request was made leaves the status
  pending.
* **`reclaimed_run_forgets_request`**: two runs of one generation report, and the request that the
  first report kept pending is gone after the second.
-/

import Mathlib.Algebra.Group.Int.Defs
import Mathlib.Data.Int.Order.Basic
import Mathlib.Order.Basic
import Toard.Library.Transition

namespace Toard.Pricing

open Toard.Library

/-! ### The row -/

inductive PricingRepairState where
  | idle
  | pending
  | running
  | waitingForCatalog
  | failed
deriving DecidableEq

inductive RepairLoadState where
  | normal
  | throttled
deriving DecidableEq

structure PricingUnresolvedModel where
  model : Option String
  events : Nat
  unpricedEvents : Nat
  legacyEvents : Nat
  firstAt : String
  lastAt : String
deriving DecidableEq

/-- The row of `pricing_repair_status`. Times are in microseconds. -/
structure PricingRepairStatus where
  generation : Option Int
  state : PricingRepairState
  targetTo : Option Int
  queuedTargetTo : Option Int
  processedEvents : Nat
  recoveredEvents : Nat
  reconciledEvents : Nat
  repricedLegacyEvents : Nat
  remainingUnpricedEvents : Nat
  remainingLegacyEvents : Nat
  unresolvedModels : List PricingUnresolvedModel
  lastStartedAt : Option Int
  lastSucceededAt : Option Int
  lastError : Option String
  adaptiveLimit : Nat
  loadState : RepairLoadState
  eligibleSince : Option Int
  nextAttemptAt : Option Int
  consecutiveFailures : Nat
  updatedAt : Int
deriving DecidableEq

def PricingRepairStatus.initial (now : Int) : PricingRepairStatus where
  generation := none
  state := .idle
  targetTo := none
  queuedTargetTo := none
  processedEvents := 0
  recoveredEvents := 0
  reconciledEvents := 0
  repricedLegacyEvents := 0
  remainingUnpricedEvents := 0
  remainingLegacyEvents := 0
  unresolvedModels := []
  lastStartedAt := none
  lastSucceededAt := none
  lastError := none
  adaptiveLimit := 100
  loadState := .normal
  eligibleSince := none
  nextAttemptAt := none
  consecutiveFailures := 0
  updatedAt := now

/-- `GREATEST` of two columns: a `NULL` is passed over. -/
def greatest : Option Int → Option Int → Option Int
  | some left, some right => some (max left right)
  | some left, none => some left
  | none, right => right

/-- The condition of every `CASE` of `enqueue_pricing_repair`: the request starts a generation. -/
def PricingRepairStatus.starts (status : PricingRepairStatus) : Bool :=
  status.state == .idle || status.generation.isNone || status.targetTo.isNone

/-- `enqueue_pricing_repair`. -/
def enqueuePricingRepair (status : PricingRepairStatus) (requestedTo : Int) :
    PricingRepairStatus :=
  if status.starts then
    { status with
      generation := some requestedTo
      state := .pending
      targetTo := some requestedTo
      queuedTargetTo := none
      processedEvents := 0
      recoveredEvents := 0
      reconciledEvents := 0
      repricedLegacyEvents := 0
      remainingUnpricedEvents := 0
      remainingLegacyEvents := 0
      unresolvedModels := []
      eligibleSince := some requestedTo
      nextAttemptAt := some requestedTo
      consecutiveFailures := 0
      lastError := none
      updatedAt := max status.updatedAt requestedTo }
  else
    { status with
      queuedTargetTo := some (max (status.queuedTargetTo.getD requestedTo) requestedTo)
      updatedAt := max status.updatedAt requestedTo }

def staleRunningUs : Int := 5 * 60 * 1000 * 1000

/-- The `WHERE` clause of `claim`. -/
def PricingRepairStatus.claimable (status : PricingRepairStatus) (claimedAt : Int) : Bool :=
  status.generation.isSome && status.targetTo.isSome &&
    (status.state == .pending ||
      ((status.state == .failed || status.state == .waitingForCatalog) &&
        status.nextAttemptAt.all fun next => next ≤ claimedAt) ||
      (status.state == .running &&
        status.lastStartedAt.any fun started => started ≤ claimedAt - staleRunningUs))

/-- `claim`, where it matches the row. -/
def claimPricingRepair (status : PricingRepairStatus) (claimedAt : Int) : PricingRepairStatus :=
  { status with
    state := .running
    targetTo := greatest status.targetTo status.queuedTargetTo
    queuedTargetTo := none
    lastStartedAt := some claimedAt
    eligibleSince := some (status.eligibleSince.getD claimedAt)
    updatedAt := claimedAt }

inductive ReportedState where
  | idle
  | pending
  | waitingForCatalog
deriving DecidableEq

def ReportedState.state : ReportedState → PricingRepairState
  | .idle => .idle
  | .pending => .pending
  | .waitingForCatalog => .waitingForCatalog

structure PricingRepairProgress where
  state : ReportedState
  processed : Nat
  recovered : Nat
  reconciled : Nat
  repricedLegacy : Nat
  remaining : Nat
  remainingLegacy : Nat
  unresolvedModels : List PricingUnresolvedModel
  adaptiveLimit : Nat
  loadState : RepairLoadState
  nextAttemptAt : Option Int
  reportedAt : Int
deriving DecidableEq

/-- `markProgress`, where the generation matches. -/
def markProgress (status : PricingRepairStatus) (input : PricingRepairProgress) :
    PricingRepairStatus :=
  let queued := status.queuedTargetTo.isSome
  { status with
    state := if queued then .pending else input.state.state
    targetTo := greatest status.targetTo status.queuedTargetTo
    processedEvents := status.processedEvents + input.processed
    recoveredEvents := status.recoveredEvents + input.recovered
    reconciledEvents := status.reconciledEvents + input.reconciled
    repricedLegacyEvents := status.repricedLegacyEvents + input.repricedLegacy
    remainingUnpricedEvents := input.remaining
    remainingLegacyEvents := input.remainingLegacy
    unresolvedModels := input.unresolvedModels
    lastSucceededAt := some input.reportedAt
    lastError := none
    adaptiveLimit := input.adaptiveLimit
    loadState := input.loadState
    eligibleSince :=
      if queued ∨ input.state = .pending then some (status.eligibleSince.getD input.reportedAt)
      else none
    nextAttemptAt := if queued then some input.reportedAt else input.nextAttemptAt
    queuedTargetTo := none
    consecutiveFailures := 0
    updatedAt := input.reportedAt }

/-- `markFailed`, where the generation matches; `none` where the update itself fails, the backoff
in seconds being more than an integer column holds. -/
def markFailed (status : PricingRepairStatus) (failedAt : Int) (error : String) :
    Option PricingRepairStatus :=
  let backoff := 60 * 2 ^ status.consecutiveFailures
  if 2 ^ 31 ≤ backoff then none
  else some { status with
    state := .failed
    lastError := some error
    consecutiveFailures := status.consecutiveFailures + 1
    nextAttemptAt := some (failedAt + min 300 backoff * 1000000)
    updatedAt := failedAt }

/-- `markPricingRepairPending` of a pricing sync: a new generation and target. The queued target
stays. -/
def markPricingRepairPending (status : PricingRepairStatus) (generation targetTo now : Int) :
    PricingRepairStatus :=
  { status with
    generation := some generation
    state := .pending
    targetTo := some targetTo
    processedEvents := 0
    recoveredEvents := 0
    reconciledEvents := 0
    repricedLegacyEvents := 0
    remainingUnpricedEvents := 0
    remainingLegacyEvents := 0
    unresolvedModels := []
    eligibleSince := some now
    nextAttemptAt := some now
    consecutiveFailures := 0
    lastError := none
    updatedAt := now }

/-! ### Workers -/

/-- A run between its claim and its report.

`requested`: a request was made since its claim. `overtaken`: since such a request another run was
claimed or reported, or a new generation began. -/
structure RepairRun where
  generation : Int
  requested : Bool
  overtaken : Bool
deriving DecidableEq

/-- The row, the runs in progress, and the requests that no run has covered. -/
structure RepairSystem where
  status : PricingRepairStatus
  runs : List RepairRun
  uncovered : List Int
deriving DecidableEq

def RepairSystem.initial (now : Int) : RepairSystem where
  status := .initial now
  runs := []
  uncovered := []

inductive RepairAction where
  | enqueue (requestedTo : Int)
  | claim (claimedAt : Int)
  | report (run : Nat) (input : PricingRepairProgress)
  | fail (run : Nat) (failedAt : Int) (error : String)
  | reset (generation targetTo now : Int)
  | crash (run : Nat)

def RepairRun.overtake (run : RepairRun) : RepairRun :=
  { run with overtaken := run.overtaken || run.requested }

def RepairRun.supersede (run : RepairRun) : RepairRun := { run with overtaken := true }

def RepairRun.request (run : RepairRun) : RepairRun := { run with requested := true }

def nextRepair (s : RepairSystem) : RepairAction → Option RepairSystem
  | .enqueue requestedTo => some
      { status := enqueuePricingRepair s.status requestedTo
        runs := s.runs.map fun run =>
          if s.status.starts then run.request.supersede else run.request
        uncovered := requestedTo :: s.uncovered }
  | .claim claimedAt =>
    if s.status.claimable claimedAt then
      let status := claimPricingRepair s.status claimedAt
      some
        { status := status
          runs := s.runs.map RepairRun.overtake ++
            status.generation.toList.map fun generation => ⟨generation, false, false⟩
          uncovered := s.uncovered.filter fun request =>
            !status.targetTo.any fun target => request ≤ target }
    else none
  | .report index input =>
    match s.runs[index]? with
    | none => none
    | some run =>
      if s.status.generation = some run.generation then
        some
          { status := markProgress s.status input
            runs := (s.runs.eraseIdx index).map RepairRun.overtake
            uncovered := s.uncovered }
      else some { s with runs := s.runs.eraseIdx index }
  | .fail index failedAt error =>
    match s.runs[index]? with
    | none => none
    | some run =>
      if s.status.generation = some run.generation then
        some { s with
          status := (markFailed s.status failedAt error).getD s.status
          runs := s.runs.eraseIdx index }
      else some { s with runs := s.runs.eraseIdx index }
  | .reset generation targetTo now => some
      { s with
        status := markPricingRepairPending s.status generation targetTo now
        runs := s.runs.map RepairRun.supersede }
  | .crash index =>
    if s.runs[index]?.isSome then some { s with runs := s.runs.eraseIdx index } else none

/-! ### The condition -/

/-- The report of a run changes the row: the generation is still its own. -/
def RepairSystem.Applies (s : RepairSystem) (index : Nat) (run : RepairRun) : Prop :=
  s.runs[index]? = some run ∧ s.status.generation = some run.generation

def PricingRepairStatus.Queued (status : PricingRepairStatus) (request : Int) : Prop :=
  ∃ queued, status.queuedTargetTo = some queued ∧ request ≤ queued

/-- No run that was overtaken reports progress, and a reset keeps in reach what is not covered. -/
def KeepsRequests (s : RepairSystem) : RepairAction → Prop
  | .report index _ => ∀ run, s.Applies index run → run.overtaken = false
  | .reset _ targetTo _ =>
    ∀ request ∈ s.uncovered, request ≤ targetTo ∨ s.status.Queued request
  | _ => True

/-! ### The invariant -/

/-- What is not covered is in reach of the row, and a run that was not overtaken can report. -/
structure RequestsKept (s : RepairSystem) : Prop where
  reach : ∀ request ∈ s.uncovered, s.status.generation.isSome ∧
    ((∃ target, s.status.targetTo = some target ∧ request ≤ target) ∨
      (s.status.targetTo.isSome ∧ s.status.Queued request))
  idle : s.status.state = .idle → s.uncovered = []
  runs : ∀ run ∈ s.runs, run.overtaken = false →
    s.status.generation = some run.generation ∧ s.status.targetTo.isSome ∧
      (run.requested = true → s.status.queuedTargetTo.isSome) ∧
      (run.requested = false → s.uncovered = [])

theorem RequestsKept.initial (now : Int) : RequestsKept (.initial now) where
  reach := by simp [RepairSystem.initial]
  idle _ := rfl
  runs := by simp [RepairSystem.initial]

theorem le_greatest {left right : Option Int} {request : Int}
    (reach : (∃ target, left = some target ∧ request ≤ target) ∨
      (left.isSome ∧ ∃ queued, right = some queued ∧ request ≤ queued)) :
    ∃ target, greatest left right = some target ∧ request ≤ target := by
  rcases reach with ⟨target, rfl, within⟩ | ⟨present, queued, rfl, within⟩
  · cases right with
    | none => exact ⟨target, rfl, within⟩
    | some queued => exact ⟨max target queued, rfl, within.trans (le_max_left target queued)⟩
  · obtain ⟨target, rfl⟩ := Option.isSome_iff_exists.mp present
    exact ⟨max target queued, rfl, within.trans (le_max_right target queued)⟩

theorem greatest_isSome {left : Option Int} (right : Option Int) (present : left.isSome) :
    (greatest left right).isSome := by
  obtain ⟨target, rfl⟩ := Option.isSome_iff_exists.mp present
  cases right <;> rfl

theorem RequestsKept.starts {s : RepairSystem} (kept : RequestsKept s)
    (starts : s.status.starts = true) : s.uncovered = [] := by
  rcases List.eq_nil_or_concat s.uncovered with none | ⟨rest, request, isRequest⟩
  · exact none
  · have among : request ∈ s.uncovered := by simp [isRequest]
    obtain ⟨generation, reach⟩ := kept.reach request among
    have target : s.status.targetTo.isSome := by
      rcases reach with ⟨target, isTarget, _⟩ | ⟨present, _⟩
      · rw [isTarget]
        rfl
      · exact present
    refine kept.idle ?_
    simpa [PricingRepairStatus.starts, Option.isNone_iff_eq_none, Option.isSome_iff_ne_none.mp
      generation, Option.isSome_iff_ne_none.mp target] using starts

theorem RequestsKept.enqueue {s : RepairSystem} (kept : RequestsKept s) (requestedTo : Int) :
    RequestsKept
      { status := enqueuePricingRepair s.status requestedTo
        runs := s.runs.map fun run =>
          if s.status.starts then run.request.supersede else run.request
        uncovered := requestedTo :: s.uncovered } := by
  cases starts : s.status.starts with
  | true =>
    have covered := kept.starts starts
    refine ⟨fun request among => ?_, fun idle => ?_, fun run among current => ?_⟩
    · rw [covered, List.mem_singleton] at among
      simp [enqueuePricingRepair, starts, among]
    · simp [enqueuePricingRepair, starts] at idle
    · obtain ⟨before, _, rfl⟩ := List.mem_map.mp among
      simp [RepairRun.supersede] at current
  | false =>
    have going : s.status.state ≠ .idle ∧ s.status.generation.isSome ∧ s.status.targetTo.isSome := by
      simpa [PricingRepairStatus.starts, ← Option.isSome_iff_ne_none, and_assoc] using starts
    refine ⟨fun request among => ?_, fun idle => ?_, fun run among current => ?_⟩
    · refine ⟨by simpa [enqueuePricingRepair, starts] using going.2.1, ?_⟩
      rcases List.mem_cons.mp among with rfl | old
      · refine Or.inr ⟨by simpa [enqueuePricingRepair, starts] using going.2.2,
          max (s.status.queuedTargetTo.getD request) request, ?_, le_max_right _ _⟩
        simp only [enqueuePricingRepair, starts, Bool.false_eq_true, if_false]
      · rcases (kept.reach request old).2 with ⟨target, isTarget, within⟩ |
          ⟨present, queued, isQueued, within⟩
        · exact Or.inl ⟨target, by simpa [enqueuePricingRepair, starts] using isTarget, within⟩
        · refine Or.inr ⟨by simpa [enqueuePricingRepair, starts] using present,
            max queued requestedTo, ?_, within.trans (le_max_left _ _)⟩
          simp [enqueuePricingRepair, starts, isQueued]
    · refine absurd ?_ going.1
      simpa [enqueuePricingRepair, starts] using idle
    · obtain ⟨before, beforeAmong, rfl⟩ := List.mem_map.mp among
      obtain ⟨generation, target, _, _⟩ := kept.runs before beforeAmong current
      refine ⟨by simpa [enqueuePricingRepair, starts, RepairRun.request] using generation,
        by simpa [enqueuePricingRepair, starts] using target, fun _ => ?_, fun unasked => ?_⟩
      · simp [enqueuePricingRepair, starts]
      · cases unasked

theorem RequestsKept.claim {s : RepairSystem} (kept : RequestsKept s) {claimedAt : Int}
    (claimable : s.status.claimable claimedAt = true) :
    RequestsKept
      { status := claimPricingRepair s.status claimedAt
        runs := s.runs.map RepairRun.overtake ++
          s.status.generation.toList.map fun generation => ⟨generation, false, false⟩
        uncovered := s.uncovered.filter fun request =>
          !(greatest s.status.targetTo s.status.queuedTargetTo).any fun target =>
            request ≤ target } := by
  have covered : (s.uncovered.filter fun request =>
      !(greatest s.status.targetTo s.status.queuedTargetTo).any fun target =>
        request ≤ target) = [] := by
    refine List.filter_eq_nil_iff.mpr fun request among => ?_
    obtain ⟨target, isTarget, within⟩ := le_greatest (kept.reach request among).2
    simp [isTarget, within]
  rw [covered]
  have present : s.status.targetTo.isSome := by
    unfold PricingRepairStatus.claimable at claimable
    simp only [Bool.and_eq_true] at claimable
    exact claimable.1.2
  have target : (greatest s.status.targetTo s.status.queuedTargetTo).isSome :=
    greatest_isSome s.status.queuedTargetTo present
  refine ⟨fun request none => (nomatch none), fun _ => rfl, fun run among current => ?_⟩
  rcases List.mem_append.mp among with old | new
  · obtain ⟨before, beforeAmong, rfl⟩ := List.mem_map.mp old
    simp only [RepairRun.overtake, Bool.or_eq_false_iff] at current
    obtain ⟨generation, _, _, _⟩ := kept.runs before beforeAmong current.1
    exact ⟨generation, target, fun asked => absurd asked (by simp [RepairRun.overtake, current.2]),
      fun _ => rfl⟩
  · obtain ⟨generation, isGeneration, rfl⟩ := List.mem_map.mp new
    refine ⟨Option.mem_toList.mp isGeneration, target, fun asked => ?_, fun _ => rfl⟩
    cases asked

theorem RequestsKept.report {s : RepairSystem} (kept : RequestsKept s) {index : Nat}
    {run : RepairRun} (here : s.runs[index]? = some run) (current : run.overtaken = false)
    (input : PricingRepairProgress) :
    RequestsKept
      { status := markProgress s.status input
        runs := (s.runs.eraseIdx index).map RepairRun.overtake
        uncovered := s.uncovered } := by
  obtain ⟨_, present, asked, unasked⟩ := kept.runs run (List.mem_of_getElem? here) current
  refine ⟨fun request among => ?_, fun idle => ?_, fun other among otherCurrent => ?_⟩
  · obtain ⟨generation, reach⟩ := kept.reach request among
    exact ⟨generation, Or.inl (le_greatest reach)⟩
  · refine unasked (Bool.eq_false_iff.mpr fun requested => ?_)
    simp [markProgress, asked requested] at idle
  · obtain ⟨before, beforeAmong, rfl⟩ := List.mem_map.mp among
    simp only [RepairRun.overtake, Bool.or_eq_false_iff] at otherCurrent
    obtain ⟨generation, _, _, covered⟩ :=
      kept.runs before (List.mem_of_mem_eraseIdx beforeAmong) otherCurrent.1
    exact ⟨generation, greatest_isSome s.status.queuedTargetTo present,
      fun requested => absurd requested (by simp [RepairRun.overtake, otherCurrent.2]),
      fun _ => covered otherCurrent.2⟩

theorem RequestsKept.erase {s : RepairSystem} (kept : RequestsKept s) (index : Nat) :
    RequestsKept { s with runs := s.runs.eraseIdx index } :=
  ⟨kept.reach, kept.idle, fun run among => kept.runs run (List.mem_of_mem_eraseIdx among)⟩

theorem RequestsKept.fail {s : RepairSystem} (kept : RequestsKept s) (failedAt : Int)
    (error : String) :
    RequestsKept { s with status := (markFailed s.status failedAt error).getD s.status } := by
  unfold markFailed
  simp only
  split
  · exact kept
  · exact ⟨kept.reach, fun idle => (nomatch idle), kept.runs⟩

theorem RequestsKept.reset {s : RepairSystem} {generation targetTo now : Int}
    (keeps : ∀ request ∈ s.uncovered, request ≤ targetTo ∨ s.status.Queued request) :
    RequestsKept
      { s with
        status := markPricingRepairPending s.status generation targetTo now
        runs := s.runs.map RepairRun.supersede } := by
  refine ⟨fun request among => ⟨rfl, ?_⟩, fun idle => (nomatch idle), fun run among current => ?_⟩
  · rcases keeps request among with within | queued
    · exact Or.inl ⟨targetTo, rfl, within⟩
    · exact Or.inr ⟨rfl, queued⟩
  · obtain ⟨before, _, rfl⟩ := List.mem_map.mp among
    simp [RepairRun.supersede] at current

theorem RequestsKept.step {s after : RepairSystem} {action : RepairAction} (kept : RequestsKept s)
    (keeps : KeepsRequests s action) (moved : nextRepair s action = some after) :
    RequestsKept after := by
  cases action with
  | enqueue requestedTo =>
    cases moved
    exact kept.enqueue requestedTo
  | claim claimedAt =>
    simp only [nextRepair] at moved
    split at moved
    · next claimable =>
      cases moved
      exact kept.claim claimable
    · cases moved
  | report index input =>
    simp only [nextRepair] at moved
    split at moved
    · cases moved
    · next run here =>
      split at moved
      · next own =>
        cases moved
        exact kept.report here (keeps run ⟨here, own⟩) input
      · cases moved
        exact kept.erase index
  | fail index failedAt error =>
    simp only [nextRepair] at moved
    split at moved
    · cases moved
    · split at moved
      · cases moved
        exact (kept.fail failedAt error).erase index
      · cases moved
        exact kept.erase index
  | reset generation targetTo now =>
    cases moved
    exact .reset keeps
  | crash index =>
    simp only [nextRepair] at moved
    split at moved
    · cases moved
      exact kept.erase index
    · cases moved

/-! ### Every run -/

/-- The property of the status row: an idle status has covered every request, and the report of a
run during which a request was made leaves the status pending. -/
def RepairSystem.RequestsCovered (s : RepairSystem) (keeps : RepairAction → Prop) : Prop :=
  (s.status.state = .idle → s.uncovered = []) ∧
    ∀ index run input after, s.Applies index run → run.requested = true →
      keeps (.report index input) → nextRepair s (.report index input) = some after →
      after.status.state = .pending

/-- **No repair request is lost** in a run whose steps keep the requests. -/
theorem repair_requests_covered (now : Int) {s : RepairSystem}
    (reached : ReachableBy nextRepair KeepsRequests (.initial now) s) :
    s.RequestsCovered (KeepsRequests s) := by
  have kept : RequestsKept s := ReachableBy.invariant RequestsKept (.initial now)
    (fun _ _ _ holding keeps moved => holding.step keeps moved) reached
  refine ⟨kept.idle, fun index run input after applies requested keeps moved => ?_⟩
  obtain ⟨here, own⟩ := applies
  obtain ⟨_, _, asked, _⟩ :=
    kept.runs run (List.mem_of_getElem? here) (keeps run ⟨here, own⟩)
  simp only [nextRepair, here, own, if_true, Option.some.injEq] at moved
  subst moved
  simp [markProgress, asked requested]

theorem keepsRequests_report {s : RepairSystem} {index : Nat} {run : RepairRun}
    (here : s.runs[index]? = some run) (current : run.overtaken = false)
    (input : PricingRepairProgress) : KeepsRequests s (.report index input) := by
  rintro other ⟨same, _⟩
  rw [← Option.some.inj (here.symm.trans same)]
  exact current

def idleReport (reportedAt : Int) : PricingRepairProgress where
  state := .idle
  processed := 0
  recovered := 0
  reconciled := 0
  repricedLegacy := 0
  remaining := 0
  remainingLegacy := 0
  unresolvedModels := []
  adaptiveLimit := 100
  loadState := .normal
  nextAttemptAt := none
  reportedAt := reportedAt

/-- A request during a run, covered by the next run. -/
theorem repair_requests_covered_requestDuringRun :
    ∃ s, ReachableBy nextRepair KeepsRequests (.initial 0) s ∧ s.status.state = .idle ∧
      s.status.targetTo = some 15 ∧ s.RequestsCovered (KeepsRequests s) := by
  have asked : ReachableBy nextRepair KeepsRequests (.initial 0) _ :=
    .of_run [.enqueue 10, .claim 20, .enqueue 15]
      (.of_forall (by simp [KeepsRequests]) _) rfl
  have reported := asked.step (.report 0 (idleReport 30))
    (keepsRequests_report rfl rfl _) rfl
  have claimed := reported.step (.claim 40) (by simp only [KeepsRequests]) rfl
  have reached := claimed.step (.report 0 (idleReport 50))
    (keepsRequests_report rfl rfl _) rfl
  exact ⟨_, reached, rfl, rfl, repair_requests_covered 0 reached⟩

/-- **A reclaimed run forgets a request.** A run is claimed again after five minutes, a request is
made, and both workers report: the first report queues the request's target, the second one, of
the same generation, sets the status idle. -/
theorem reclaimed_run_forgets_request : ¬ ∀ (now : Int) (s : RepairSystem),
    Reachable nextRepair (.initial now) s → s.RequestsCovered fun _ => True := by
  intro claimed
  have covered := (claimed 0 _ (Reachable.of_run [.enqueue 10, .claim 20, .claim 300000020,
    .enqueue 300000030, .report 0 (idleReport 300000040), .report 0 (idleReport 300000050)] rfl)).1
  exact absurd (covered rfl) (by decide)

example : ((run nextRepair (.initial 0) [.enqueue 10, .reset 5 5 11, .claim 20,
    .report 0 (idleReport 30)]).map fun s => (s.status.state, s.uncovered)) = some (.idle, [10]) := by
  decide

end Toard.Pricing
