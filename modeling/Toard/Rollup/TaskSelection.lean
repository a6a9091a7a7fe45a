/-
**Which task a tick of the coordinator runs (`selectRollupTask`).**

The candidates that may run are sorted by a comparator of three keys (validation first, the starved
before the others, the longest idle first), and a fixed order of the tasks settles the ties. The age
of a task that never ran is infinite, and the difference of two infinite ages is `NaN`: not zero,
so that the comparator returns it, and a zero to the sort.

* **`selectRollupTask_ahead`**: the task that is selected, whatever the candidates, and the orders
  of them that select the same one.
-/

import Mathlib

namespace Toard.Rollup

inductive RollupCoordinatorTask where
  | validation
  | pricingRepair
  | usage15mV2
  | timezone
deriving DecidableEq

/-- A task that may be run, with the times of its worker in milliseconds. -/
structure RollupCoordinatorCandidate where
  task : RollupCoordinatorTask
  due : Bool
  eligibleSince : Option Int
  lastStartedAt : Option Int
  nextAttemptAt : Option Int
deriving DecidableEq

def COORDINATOR_TICK_MS : Int := 10000

def WORKER_MIN_CADENCE_MS : Int := 60000

def PRICING_REPAIR_MIN_CADENCE_MS : Int := COORDINATOR_TICK_MS

def STARVATION_LIMIT_MS : Int := 120000

def isRunnable (candidate : RollupCoordinatorCandidate) (now : Int) : Bool :=
  let minimumCadence :=
    if candidate.task = .pricingRepair then PRICING_REPAIR_MIN_CADENCE_MS else WORKER_MIN_CADENCE_MS
  candidate.due && (candidate.nextAttemptAt.all fun next => next ≤ now) &&
    candidate.lastStartedAt.all fun started => minimumCadence ≤ now - started

def waitedTooLong (candidate : RollupCoordinatorCandidate) (now : Int) : Bool :=
  candidate.eligibleSince.any fun since => STARVATION_LIMIT_MS ≤ now - since

def lastStartedRank (candidate : RollupCoordinatorCandidate) : WithBot Int :=
  candidate.lastStartedAt

def STABLE_TASK_ORDER : RollupCoordinatorTask → Nat
  | .validation => 0
  | .pricingRepair => 1
  | .usage15mV2 => 2
  | .timezone => 3

/-! ### The comparator -/

inductive Comparison where
  | finite (value : Int)
  | infinite (negative : Bool)
  | nan
deriving DecidableEq

def rankDifference : WithBot Int → WithBot Int → Comparison
  | some left, some right => .finite (left - right)
  | none, some _ => .infinite true
  | some _, none => .infinite false
  | none, none => .nan

/-- `lastStarted !== 0`, which `NaN` is too. -/
def Comparison.isZero : Comparison → Bool
  | .finite value => value = 0
  | .infinite _ => false
  | .nan => false

/-- The left one stays before the right one: to `sort`, `NaN` is a zero. -/
def Comparison.keeps : Comparison → Bool
  | .finite value => value ≤ 0
  | .infinite negative => negative
  | .nan => true

def compareCandidates (now : Int) (left right : RollupCoordinatorCandidate) : Comparison :=
  if left.task = .validation ∨ right.task = .validation then
    if left.task = right.task then .finite 0
    else .finite (if left.task = .validation then -1 else 1)
  else
    let leftStarved := waitedTooLong left now
    let rightStarved := waitedTooLong right now
    if leftStarved ≠ rightStarved then .finite (if leftStarved then -1 else 1)
    else
      let lastStarted := rankDifference (lastStartedRank left) (lastStartedRank right)
      if lastStarted.isZero then
        .finite (STABLE_TASK_ORDER left.task - STABLE_TASK_ORDER right.task)
      else lastStarted

/-- The candidates in the order of `sort`, which keeps ties in place. -/
def sortCandidates (candidates : List RollupCoordinatorCandidate) (now : Int) :
    List RollupCoordinatorCandidate :=
  (candidates.filter (isRunnable · now)).mergeSort fun left right =>
    (compareCandidates now left right).keeps

def selectRollupTask (candidates : List RollupCoordinatorCandidate) (now : Int) :
    Option RollupCoordinatorTask :=
  (sortCandidates candidates now).head?.map RollupCoordinatorCandidate.task

/-! ### What is compared -/

/-- The class of a candidate: a validation, a starved task, another one. -/
def priority (now : Int) (candidate : RollupCoordinatorCandidate) : Nat :=
  if candidate.task = .validation then 0 else if waitedTooLong candidate now then 1 else 2

/-- The key of a candidate: a validation is compared by its class alone, and a task that never ran
not by its name. -/
def sortKey (now : Int) (candidate : RollupCoordinatorCandidate) : ℕ ×ₗ WithBot Int ×ₗ ℕ :=
  if candidate.task = .validation then toLex (0, toLex (⊥, 0))
  else toLex (priority now candidate, toLex (lastStartedRank candidate,
    if lastStartedRank candidate = ⊥ then 0 else STABLE_TASK_ORDER candidate.task))

theorem sortKey_validation {now : Int} {candidate : RollupCoordinatorCandidate}
    (validation : candidate.task = .validation) :
    sortKey now candidate = toLex (0, toLex (⊥, 0)) := by
  rw [sortKey, if_pos validation]

theorem sortKey_other {now : Int} {candidate : RollupCoordinatorCandidate}
    (other : candidate.task ≠ .validation) :
    sortKey now candidate = toLex (if waitedTooLong candidate now then 1 else 2,
      toLex (lastStartedRank candidate,
        if lastStartedRank candidate = ⊥ then 0 else STABLE_TASK_ORDER candidate.task)) := by
  rw [sortKey, if_neg other, priority, if_neg other]

theorem keeps_rankDifference (left right : WithBot Int) (leftOrder rightOrder : Nat) :
    (if (rankDifference left right).isZero then
        Comparison.finite (leftOrder - rightOrder) else rankDifference left right).keeps = true ↔
      toLex (left, if left = ⊥ then 0 else leftOrder)
        ≤ toLex (right, if right = ⊥ then 0 else rightOrder) := by
  rw [Prod.Lex.toLex_le_toLex]
  induction left with
  | bot =>
    induction right with
    | bot => simp [rankDifference, Comparison.isZero, Comparison.keeps]
    | coe right => simp [rankDifference, Comparison.isZero, Comparison.keeps]
  | coe left =>
    induction right with
    | bot => simp [rankDifference, Comparison.isZero, Comparison.keeps]
    | coe right =>
      by_cases same : left = right
      · simp [same, rankDifference, Comparison.isZero, Comparison.keeps]
      · have apart : left - right ≠ 0 := by omega
        simp [same, apart, rankDifference, Comparison.isZero, Comparison.keeps]
        omega

/-- **The comparator compares the keys.** -/
theorem keeps_compareCandidates (now : Int) (left right : RollupCoordinatorCandidate) :
    (compareCandidates now left right).keeps = true ↔ sortKey now left ≤ sortKey now right := by
  by_cases leftValidation : left.task = .validation
  · rw [sortKey_validation leftValidation]
    by_cases rightValidation : right.task = .validation
    · simp [compareCandidates, leftValidation, rightValidation, sortKey_validation rightValidation,
        Comparison.keeps]
    · have differ : RollupCoordinatorTask.validation ≠ right.task := fun same =>
        rightValidation same.symm
      rw [sortKey_other rightValidation, Prod.Lex.toLex_le_toLex]
      simp only [compareCandidates, leftValidation, true_or, if_true, differ, if_false,
        Comparison.keeps]
      split <;> simp
  · rw [sortKey_other leftValidation]
    by_cases rightValidation : right.task = .validation
    · rw [sortKey_validation rightValidation, Prod.Lex.toLex_le_toLex]
      simp only [compareCandidates, leftValidation, rightValidation, or_true, if_true, if_false,
        Comparison.keeps]
      split <;> simp
    · rw [sortKey_other rightValidation, Prod.Lex.toLex_le_toLex]
      simp only [compareCandidates, leftValidation, rightValidation, or_self, if_false]
      cases waitedTooLong left now <;> cases waitedTooLong right now
      · simpa using keeps_rankDifference _ _ _ _
      · simp [Comparison.keeps]
      · simp [Comparison.keeps]
      · simpa using keeps_rankDifference _ _ _ _

/-! ### What is selected -/

/-- The candidate is taken before the other. Of two that never ran, nothing is said of the same
class. -/
def Ahead (now : Int) (candidate other : RollupCoordinatorCandidate) : Prop :=
  priority now candidate < priority now other ∨
    priority now candidate = priority now other ∧ (candidate.task ≠ .validation →
      lastStartedRank candidate < lastStartedRank other ∨
        lastStartedRank candidate = lastStartedRank other ∧ (lastStartedRank candidate ≠ ⊥ →
          STABLE_TASK_ORDER candidate.task ≤ STABLE_TASK_ORDER other.task))

/-- Two different tasks that never ran are both in the first class that may run. -/
def NeverRunTie (candidates : List RollupCoordinatorCandidate) (now : Int) : Prop :=
  ∃ left ∈ candidates, ∃ right ∈ candidates, isRunnable left now = true ∧
    isRunnable right now = true ∧ left.task ≠ right.task ∧ left.lastStartedAt = none ∧
    right.lastStartedAt = none ∧ priority now left = priority now right ∧
    ∀ other ∈ candidates, isRunnable other now = true → priority now left ≤ priority now other

theorem priority_eq_zero {now : Int} {candidate : RollupCoordinatorCandidate} :
    priority now candidate = 0 ↔ candidate.task = .validation := by
  unfold priority
  split
  · simp [*]
  · split <;> simp [*]

theorem ahead_of_sortKey_le {now : Int} {candidate other : RollupCoordinatorCandidate}
    (le : sortKey now candidate ≤ sortKey now other) : Ahead now candidate other := by
  by_cases validation : candidate.task = .validation
  · rcases (Nat.zero_le (priority now other)).lt_or_eq with less | same
    · exact Or.inl (by rwa [priority_eq_zero.mpr validation])
    · exact Or.inr ⟨by rwa [priority_eq_zero.mpr validation], absurd validation⟩
  · by_cases otherValidation : other.task = .validation
    · rw [sortKey_other validation, sortKey_validation otherValidation,
        Prod.Lex.toLex_le_toLex] at le
      simp only [Nat.not_lt_zero, false_or] at le
      split at le
      · exact absurd le.1 (by decide)
      · exact absurd le.1 (by decide)
    · rw [sortKey, if_neg validation, sortKey, if_neg otherValidation, Prod.Lex.toLex_le_toLex,
        Prod.Lex.toLex_le_toLex] at le
      refine le.imp_right (And.imp_right fun byRank _ => byRank.imp_right ?_)
      rintro ⟨same, byOrder⟩
      refine ⟨same, fun ran => ?_⟩
      dsimp only at same byOrder
      rwa [← same, if_neg ran, if_neg ran] at byOrder

theorem task_eq_of_sortKey_eq {now : Int} {left right : RollupCoordinatorCandidate}
    (same : sortKey now left = sortKey now right) :
    left.task = right.task ∨ left.lastStartedAt = none ∧ right.lastStartedAt = none := by
  have order_inj : ∀ {first second : RollupCoordinatorTask},
      STABLE_TASK_ORDER first = STABLE_TASK_ORDER second → first = second := by
    intro first second
    cases first <;> cases second <;> decide
  rcases ahead_of_sortKey_le same.le with less | ⟨samePriority, rest⟩
  · rcases ahead_of_sortKey_le same.ge with more | ⟨samePriority, -⟩
    · exact absurd more less.asymm
    · exact absurd samePriority less.ne'
  · by_cases validation : left.task = .validation
    · exact Or.inl (validation.trans (priority_eq_zero.mp
        (samePriority.symm.trans (priority_eq_zero.mpr validation))).symm)
    · have otherValidation : right.task ≠ .validation := fun isValidation =>
        validation (priority_eq_zero.mp (samePriority.trans (priority_eq_zero.mpr isValidation)))
      rw [sortKey_other validation, sortKey_other otherValidation, toLex.injective.eq_iff,
        Prod.mk.injEq, toLex.injective.eq_iff, Prod.mk.injEq] at same
      obtain ⟨-, sameRank, sameOrder⟩ := same
      by_cases never : lastStartedRank left = ⊥
      · exact Or.inr ⟨never, sameRank.symm.trans never⟩
      · rw [← sameRank, if_neg never, if_neg never] at sameOrder
        exact Or.inl (order_inj sameOrder)

theorem first_of_sort {candidates : List RollupCoordinatorCandidate} {now : Int}
    {first : RollupCoordinatorCandidate}
    (head : (sortCandidates candidates now).head? = some first) :
    first ∈ candidates ∧ isRunnable first now = true ∧
      ∀ other ∈ candidates, isRunnable other now = true → sortKey now first ≤ sortKey now other := by
  have trans : ∀ a b c : RollupCoordinatorCandidate, (compareCandidates now a b).keeps = true →
      (compareCandidates now b c).keeps = true → (compareCandidates now a c).keeps = true := by
    intro a b c
    simp only [keeps_compareCandidates]
    exact le_trans
  have total : ∀ a b : RollupCoordinatorCandidate,
      ((compareCandidates now a b).keeps || (compareCandidates now b a).keeps) = true := by
    intro a b
    simp only [Bool.or_eq_true, keeps_compareCandidates]
    exact le_total _ _
  have sorted := List.pairwise_mergeSort trans total (candidates.filter (isRunnable · now))
  obtain ⟨rest, split⟩ := List.head?_eq_some_iff.mp head
  rw [sortCandidates] at split
  have among : ∀ candidate, candidate ∈ first :: rest ↔
      candidate ∈ candidates ∧ isRunnable candidate now = true := by
    intro candidate
    rw [← split, List.mem_mergeSort, List.mem_filter]
  rw [split, List.pairwise_cons] at sorted
  refine ⟨((among first).mp List.mem_cons_self).1, ((among first).mp List.mem_cons_self).2, ?_⟩
  intro other isOther runnable
  rcases List.mem_cons.mp ((among other).mpr ⟨isOther, runnable⟩) with rfl | later
  · exact le_rfl
  · exact (keeps_compareCandidates now first other).mp (sorted.1 other later)

theorem sortCandidates_eq_nil {candidates : List RollupCoordinatorCandidate} {now : Int} :
    sortCandidates candidates now = [] ↔ ∀ c ∈ candidates, isRunnable c now = false := by
  rw [sortCandidates, ← List.length_eq_zero_iff, List.length_mergeSort, List.length_eq_zero_iff,
    List.filter_eq_nil_iff]
  simp only [Bool.not_eq_true]

/-- **What a tick selects.** A validation goes first, then a starved task, then the one that has
been idle longest, with the fixed order between tasks last started at the same time; and unless two
tasks that never ran tie for it, every order of the candidates selects the same task. -/
theorem selectRollupTask_ahead (candidates : List RollupCoordinatorCandidate) (now : Int) :
    (selectRollupTask candidates now = none ↔ ∀ c ∈ candidates, isRunnable c now = false) ∧
    (∀ task, selectRollupTask candidates now = some task →
      ∃ first ∈ candidates, isRunnable first now = true ∧ first.task = task ∧
        ∀ other ∈ candidates, isRunnable other now = true → Ahead now first other) ∧
    (¬ NeverRunTie candidates now → ∀ others : List RollupCoordinatorCandidate,
      others.Perm candidates → selectRollupTask others now = selectRollupTask candidates now) := by
  refine ⟨?_, ?_, ?_⟩
  · rw [selectRollupTask, Option.map_eq_none_iff, List.head?_eq_none_iff, sortCandidates_eq_nil]
  · intro task selected
    obtain ⟨first, head, isTask⟩ := Option.map_eq_some_iff.mp selected
    obtain ⟨among, runnable, least⟩ := first_of_sort head
    exact ⟨first, among, runnable, isTask, fun other isOther otherRunnable =>
      ahead_of_sortKey_le (least other isOther otherRunnable)⟩
  · intro untied others perm
    unfold selectRollupTask
    cases head : (sortCandidates candidates now).head? with
    | none =>
      have nothing := sortCandidates_eq_nil.mp (List.head?_eq_none_iff.mp head)
      have nothing' : sortCandidates others now = [] :=
        sortCandidates_eq_nil.mpr fun c isC => nothing c (perm.subset isC)
      rw [nothing']
      rfl
    | some first =>
      obtain ⟨among, runnable, least⟩ := first_of_sort head
      cases head' : (sortCandidates others now).head? with
      | none =>
        have nothing := sortCandidates_eq_nil.mp (List.head?_eq_none_iff.mp head')
        rw [nothing first (perm.symm.subset among)] at runnable
        cases runnable
      | some first' =>
        obtain ⟨among', runnable', least'⟩ := first_of_sort head'
        have same : sortKey now first = sortKey now first' :=
          le_antisymm (least first' (perm.subset among') runnable')
            (least' first (perm.symm.subset among) runnable)
        rcases task_eq_of_sortKey_eq same with one | ⟨never, never'⟩
        · exact congrArg some one.symm
        · by_cases one : first.task = first'.task
          · exact congrArg some one.symm
          have samePriority : priority now first = priority now first' := by
            rcases ahead_of_sortKey_le same.le with less | ⟨priority, -⟩
            · rcases ahead_of_sortKey_le same.ge with more | ⟨priority, -⟩
              · exact absurd more less.asymm
              · exact priority.symm
            · exact priority
          refine absurd ⟨first, among, first', perm.subset among', runnable, runnable', one, never,
            never', samePriority, fun other isOther otherRunnable => ?_⟩ untied
          rcases ahead_of_sortKey_le (least other isOther otherRunnable) with less | ⟨priority, -⟩
          · exact less.le
          · exact priority.le

/-- A usage task that has waited 130 seconds, and a validation that has just become due. -/
def starvedAndValidation : List RollupCoordinatorCandidate :=
  [⟨.usage15mV2, true, some 0, none, none⟩, ⟨.validation, true, some 130000, none, none⟩]

/-- A validation that is not starved goes before a starved task. -/
theorem not_starved_first : ¬ ∀ (candidates : List RollupCoordinatorCandidate) (now : Int)
    (task : RollupCoordinatorTask), selectRollupTask candidates now = some task →
      (∃ candidate ∈ candidates, isRunnable candidate now = true ∧
        waitedTooLong candidate now = true) →
      ∃ candidate ∈ candidates, candidate.task = task ∧ isRunnable candidate now = true ∧
        waitedTooLong candidate now = true := by
  intro claim
  have selected : selectRollupTask starvedAndValidation 130000 = some .validation := by
    simp [selectRollupTask, sortCandidates, starvedAndValidation, isRunnable, List.mergeSort,
      compareCandidates, Comparison.keeps]
  obtain ⟨candidate, among, isValidation, -, starved⟩ :=
    claim starvedAndValidation 130000 .validation selected
      ⟨⟨.usage15mV2, true, some 0, none, none⟩, List.mem_cons_self, by decide, by decide⟩
  simp only [starvedAndValidation, List.mem_cons, List.not_mem_nil, or_false] at among
  rcases among with rfl | rfl
  · cases isValidation
  · exact absurd starved (by decide)

end Toard.Rollup
