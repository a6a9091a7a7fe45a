/-
**Transition systems: runs, reachable states and invariants.**

A system is a function `next : State → Action → Option State`: the action carries everything the
environment decides (who moves, what a call answers, whether it crashes), and `none` says that the
action is not possible in the state. Every result about "any interleaving" is an invariant of
`Reachable`, and every result about "any run whose steps meet a condition" one of `ReachableBy`.

* `run`: the state after a list of actions.
* `ReachableBy admits start`: reached by steps that `admits` allows, each judged in the state
  before it; `Reachable` is the case where every step is allowed.
* `ReachableBy.invariant`: what holds at the start and is kept by each admitted step holds in
  every state reached.
* `ReachableBy.of_run`, `ReachableBy.of_checkedRun`: a concrete run is a witness, and can be
  evaluated, its conditions too where they are decidable.
-/

import Mathlib.Tactic.TypeStar

namespace Toard.Library

variable {State Action : Type*}

/-- The state after a list of actions, if each of them is possible in its turn. -/
def run (next : State → Action → Option State) : State → List Action → Option State
  | state, [] => some state
  | state, action :: rest => (next state action).bind fun after => run next after rest

@[simp] theorem run_nil (next : State → Action → Option State) (state : State) :
    run next state [] = some state := rfl

@[simp] theorem run_cons (next : State → Action → Option State) (state : State) (action : Action)
    (rest : List Action) : run next state (action :: rest)
      = (next state action).bind fun after => run next after rest := rfl

/-- The states reached from `start` by steps that `admits` allows in the state before them. -/
inductive ReachableBy (next : State → Action → Option State) (admits : State → Action → Prop)
    (start : State) : State → Prop where
  | start : ReachableBy next admits start start
  | step {before after : State} (action : Action) (reached : ReachableBy next admits start before)
      (admitted : admits before action) (moved : next before action = some after) :
      ReachableBy next admits start after

/-- The states reached by any steps at all. -/
abbrev Reachable (next : State → Action → Option State) (start : State) : State → Prop :=
  ReachableBy next (fun _ _ => True) start

section Invariants

variable {next : State → Action → Option State} {admits : State → Action → Prop} {start : State}

/-- **The invariant rule.** What holds at the start and is kept by each admitted step holds in
every state reached. -/
theorem ReachableBy.invariant (holds : State → Prop) (initial : holds start)
    (kept : ∀ before action after, holds before → admits before action →
      next before action = some after → holds after)
    {state : State} (reached : ReachableBy next admits start state) : holds state := by
  induction reached with
  | start => exact initial
  | step action _ admitted moved ih => exact kept _ action _ ih admitted moved

theorem Reachable.invariant (holds : State → Prop) (initial : holds start)
    (kept : ∀ before action after, holds before → next before action = some after → holds after)
    {state : State} (reached : Reachable next start state) : holds state :=
  ReachableBy.invariant holds initial (fun before action after holding _ moved =>
    kept before action after holding moved) reached

/-- What is reached by steps of one kind is reached by steps of a kind that includes them. -/
theorem ReachableBy.mono {allows : State → Action → Prop}
    (wider : ∀ state action, admits state action → allows state action) {state : State}
    (reached : ReachableBy next admits start state) : ReachableBy next allows start state := by
  induction reached with
  | start => exact .start
  | step action _ admitted moved ih => exact .step action ih (wider _ _ admitted) moved

theorem ReachableBy.trans {middle state : State} (first : ReachableBy next admits start middle)
    (second : ReachableBy next admits middle state) : ReachableBy next admits start state := by
  induction second with
  | start => exact first
  | step action _ admitted moved ih => exact .step action ih admitted moved

/-- A run all of whose steps are admitted. -/
def AdmittedRun (next : State → Action → Option State) (admits : State → Action → Prop) :
    State → List Action → Prop
  | _, [] => True
  | state, action :: rest => admits state action ∧
      ∀ after, next state action = some after → AdmittedRun next admits after rest

theorem AdmittedRun.of_forall {actions : List Action}
    (free : ∀ action ∈ actions, ∀ state, admits state action) (state : State) :
    AdmittedRun next admits state actions := by
  induction actions generalizing state with
  | nil => trivial
  | cons action rest ih =>
    exact ⟨free action List.mem_cons_self state,
      fun after _ => ih (fun other among => free other (List.mem_cons_of_mem action among)) after⟩

/-- The state after a list of actions, if each of them is admitted and possible in its turn. -/
def checkedRun (next : State → Action → Option State) (admits : State → Action → Prop)
    [∀ state action, Decidable (admits state action)] : State → List Action → Option State
  | state, [] => some state
  | state, action :: rest =>
    if admits state action then (next state action).bind fun after => checkedRun next admits after rest
    else none

theorem ReachableBy.of_run (actions : List Action) {state : State}
    (admitted : AdmittedRun next admits start actions)
    (ends : run next start actions = some state) : ReachableBy next admits start state := by
  induction actions generalizing start with
  | nil =>
    cases ends
    exact .start
  | cons action rest ih =>
    rw [run_cons, Option.bind_eq_some_iff] at ends
    obtain ⟨after, moved, ends⟩ := ends
    exact .trans (.step action .start admitted.1 moved) (ih (admitted.2 after moved) ends)

theorem run_of_checkedRun [∀ state action, Decidable (admits state action)] {actions : List Action}
    {state : State} (ends : checkedRun next admits start actions = some state) :
    run next start actions = some state := by
  induction actions generalizing start with
  | nil => exact ends
  | cons action rest ih =>
    rw [checkedRun] at ends
    split at ends
    case isFalse => cases ends
    case isTrue =>
      obtain ⟨after, moved, ends⟩ := Option.bind_eq_some_iff.mp ends
      rw [run_cons, moved]
      exact ih ends

theorem ReachableBy.of_checkedRun [∀ state action, Decidable (admits state action)]
    (actions : List Action) {state : State}
    (ends : checkedRun next admits start actions = some state) :
    ReachableBy next admits start state := by
  induction actions generalizing start with
  | nil =>
    cases ends
    exact .start
  | cons action rest ih =>
    rw [checkedRun] at ends
    split at ends
    case isFalse => cases ends
    case isTrue admitted =>
      obtain ⟨after, moved, ends⟩ := Option.bind_eq_some_iff.mp ends
      exact .trans (.step action .start admitted moved) (ih ends)

theorem Reachable.of_run (actions : List Action) {state : State}
    (ends : run next start actions = some state) : Reachable next start state := by
  refine ReachableBy.of_run actions ?_ ends
  clear ends
  induction actions generalizing start with
  | nil => trivial
  | cons action rest ih => exact ⟨trivial, fun _ _ => ih⟩

end Invariants

end Toard.Library
