/-
**Programs that run side by side over a shared state.**

Every process runs a `Program`. A step performs the next call of one of them on the shared state;
the order of the steps is open. A call may have to wait (`perform` has no result then), a process
may lose its connection at any call, and the environment has events of its own.

* `System`, `Processes`, `next`: the transition system of the processes.
* `Outline`: a proof outline of one process: an assertion in front of each call that the other
  processes keep (`Stable`), and a `Triple` for each call.
* `outlined`: from an outline of every program, the invariant of the shared state holds after every
  run, and each process stands at a point of its outline whose assertion holds.
* `each_program`: what every program keeps under its calls is true of every running program.
-/

import Mathlib.Logic.Function.Basic
import Toard.Library.Program
import Toard.Library.Transition

namespace Toard.Library.Concurrent

/-- The shared state, and what each process has still to do. -/
structure Processes (Shared Op : Type) (Reply : Op → Type) (α : Type) where
  shared : Shared
  running : Nat → Option (Program Op Reply α)

/-- What can happen: an event of the environment, a process that begins with a request, performs
its next call, loses its connection, or has ended. -/
inductive Move (Event Request : Type) where
  | happens (event : Event)
  | begins (process : Nat) (request : Request)
  | calls (process : Nat)
  | breaks (process : Nat)
  | ends (process : Nat)

/-- What the processes run, and what their calls do. -/
structure System (Shared Event Request Op : Type) (Reply : Op → Type) (α : Type) where
  happen : Event → Shared → Option Shared
  program : Request → Program Op Reply α
  perform : Nat → (op : Op) → Shared → Option (Shared × Reply op)
  abandon : Nat → Shared → Shared

variable {Shared Event Request Op : Type} {Reply : Op → Type} {α : Type}

def next (system : System Shared Event Request Op Reply α) (state : Processes Shared Op Reply α) :
    Move Event Request → Option (Processes Shared Op Reply α)
  | .happens event => (system.happen event state.shared).map fun shared => { state with shared }
  | .begins process request =>
    match state.running process with
    | none => some { state with
        running := Function.update state.running process (some (system.program request)) }
    | some _ => none
  | .calls process =>
    match state.running process with
    | some (.call op rest) =>
      (system.perform process op state.shared).map fun done =>
        ⟨done.1, Function.update state.running process (some (rest done.2))⟩
    | _ => none
  | .breaks process =>
    match state.running process with
    | some (.call _ _) =>
      some ⟨system.abandon process state.shared, Function.update state.running process none⟩
    | _ => none
  | .ends process =>
    match state.running process with
    | some (.done _) => some { state with running := Function.update state.running process none }
    | _ => none

/-- A condition on the calls, as one on the moves. -/
def Allows (admits : Shared → Nat → Op → Prop) (state : Processes Shared Op Reply α) :
    Move Event Request → Prop
  | .calls process =>
    match state.running process with
    | some (.call op _) => admits state.shared process op
    | _ => True
  | _ => True

instance {admits : Shared → Nat → Op → Prop}
    [∀ shared process op, Decidable (admits shared process op)]
    (state : Processes Shared Op Reply α) :
    (move : Move Event Request) → Decidable (Allows admits state move)
  | .calls process =>
    match running : state.running process with
    | some (.call op _) => decidable_of_iff (admits state.shared process op) (by rw [Allows, running])
    | some (.done _) => isTrue (by rw [Allows, running]; trivial)
    | none => isTrue (by rw [Allows, running]; trivial)
  | .happens _ => isTrue trivial
  | .begins _ _ => isTrue trivial
  | .breaks _ => isTrue trivial
  | .ends _ => isTrue trivial

/-- What a proof says of the shared state: its invariant, what a process may rely on while others
move, and what is true of a process that runs nothing. -/
structure Discipline (Shared : Type) where
  holds : Shared → Prop
  rely : Nat → Shared → Shared → Prop
  idle : Nat → Shared → Prop

section Outlines

variable (discipline : Discipline Shared)

/-- An assertion about a process that the others keep. -/
def Stable (process : Nat) (assertion : Shared → Prop) : Prop :=
  ∀ before after, discipline.rely process before after → assertion before → assertion after

/-- A step of a process that keeps the invariant and what the others rely on. -/
def Keeps (process : Nat) (before after : Shared) : Prop :=
  discipline.holds after ∧ ∀ other, other ≠ process → discipline.rely other before after

variable (system : System Shared Event Request Op Reply α) (admits : Shared → Nat → Op → Prop)

/-- What a call needs, and what it leaves. -/
def Triple (process : Nat) (op : Op) (now : Shared → Prop) (later : Reply op → Shared → Prop) :
    Prop :=
  ∀ before after reply, discipline.holds before → now before → admits before process op →
    system.perform process op before = some (after, reply) →
      Keeps discipline process before after ∧ later reply after

/-- A proof outline of what a process has still to do. -/
def Outline (process : Nat) : Program Op Reply α → (Shared → Prop) → Prop
  | .done _, now => Stable discipline process now ∧
      ∀ shared, discipline.holds shared → now shared → discipline.idle process shared
  | .call op rest, now => Stable discipline process now ∧
      ∃ later : Reply op → Shared → Prop, Triple discipline system admits process op now later ∧
        ∀ reply, Outline process (rest reply) (later reply)

variable {discipline system admits} {process : Nat}

theorem Outline.stable {program : Program Op Reply α} {now : Shared → Prop}
    (outline : Outline discipline system admits process program now) :
    Stable discipline process now := by
  cases program with
  | done => exact outline.1
  | call => exact outline.1

theorem Outline.done {result : α} {now : Shared → Prop} (stable : Stable discipline process now)
    (idle : ∀ shared, discipline.holds shared → now shared → discipline.idle process shared) :
    Outline discipline system admits process (.done result) now := ⟨stable, idle⟩

/-- **The rule of a call.** -/
theorem Outline.call {op : Op} {rest : Reply op → Program Op Reply α} {now : Shared → Prop}
    (later : Reply op → Shared → Prop) (stable : Stable discipline process now)
    (triple : Triple discipline system admits process op now later)
    (goesOn : ∀ reply, Outline discipline system admits process (rest reply) (later reply)) :
    Outline discipline system admits process (.call op rest) now :=
  ⟨stable, later, triple, goesOn⟩

theorem Outline.request_bind {op : Op} {rest : Reply op → Program Op Reply α}
    {now : Shared → Prop} (later : Reply op → Shared → Prop)
    (stable : Stable discipline process now)
    (triple : Triple discipline system admits process op now later)
    (goesOn : ∀ reply, Outline discipline system admits process (rest reply) (later reply)) :
    Outline discipline system admits process (Program.request op >>= rest) now :=
  .call later stable triple goesOn

theorem Outline.mono {program : Program Op Reply α} {now stronger : Shared → Prop}
    (outline : Outline discipline system admits process program now)
    (stable : Stable discipline process stronger) (implied : ∀ shared, stronger shared → now shared) :
    Outline discipline system admits process program stronger := by
  cases program with
  | done => exact ⟨stable, fun shared holds known => outline.2 shared holds (implied shared known)⟩
  | call op rest =>
    obtain ⟨_, later, triple, goesOn⟩ := outline
    exact ⟨stable, later, fun before after reply holds known =>
      triple before after reply holds (implied before known), goesOn⟩

theorem Outline.of_false {program : Program Op Reply α} {now : Shared → Prop}
    (never : ∀ shared, ¬now shared) : Outline discipline system admits process program now := by
  induction program generalizing now with
  | done => exact ⟨fun before _ _ known => (never before known).elim,
      fun shared _ known => (never shared known).elim⟩
  | call op rest ih =>
    exact ⟨fun before _ _ known => (never before known).elim, fun _ _ => False,
      fun before _ _ _ known => (never before known).elim, fun reply => ih reply fun _ => id⟩

theorem Outline.of_fact {program : Program Op Reply α} {fact : Prop} {now : Shared → Prop}
    (outline : fact → Outline discipline system admits process program now) :
    Outline discipline system admits process program (fun shared => fact ∧ now shared) := by
  by_cases holds : fact
  · exact (outline holds).mono (fun before after kept known =>
      ⟨holds, (outline holds).stable before after kept known.2⟩) fun _ known => known.2
  · exact .of_false fun _ known => holds known.1

/-- Where a process stands: nowhere, or at a point of its outline. -/
def Stands (discipline : Discipline Shared) (system : System Shared Event Request Op Reply α)
    (admits : Shared → Nat → Op → Prop) (process : Nat) (shared : Shared) :
    Option (Program Op Reply α) → Prop
  | none => discipline.idle process shared
  | some program => ∃ now : Shared → Prop,
      Outline discipline system admits process program now ∧ now shared

/-- The invariant of the system. -/
def Outlined (discipline : Discipline Shared) (system : System Shared Event Request Op Reply α)
    (admits : Shared → Nat → Op → Prop) (state : Processes Shared Op Reply α) : Prop :=
  discipline.holds state.shared ∧
    ∀ process, Stands discipline system admits process state.shared (state.running process)

theorem Stands.kept {before after : Shared} {running : Option (Program Op Reply α)}
    (stands : Stands discipline system admits process before running)
    (idle : Stable discipline process (discipline.idle process))
    (kept : discipline.rely process before after) :
    Stands discipline system admits process after running := by
  cases running with
  | none => exact idle before after kept stands
  | some program =>
    obtain ⟨now, outline, holds⟩ := stands
    exact ⟨now, outline, outline.stable before after kept holds⟩

theorem Outlined.moved {state : Processes Shared Op Reply α} {shared : Shared}
    {running : Option (Program Op Reply α)}
    (outlined : Outlined discipline system admits state)
    (idle : ∀ process, Stable discipline process (discipline.idle process))
    (keeps : Keeps discipline process state.shared shared)
    (stands : Stands discipline system admits process shared running) :
    Outlined discipline system admits ⟨shared, Function.update state.running process running⟩ := by
  refine ⟨keeps.1, fun other => ?_⟩
  show Stands discipline system admits other shared
    (Function.update state.running process running other)
  by_cases same : other = process
  · subst same
    rw [Function.update_self]
    exact stands
  · rw [Function.update_of_ne same]
    exact (outlined.2 other).kept (idle other) (keeps.2 other same)

end Outlines

/-- What is to be proved of a system, beside the outlines of its programs. -/
structure Sound (discipline : Discipline Shared)
    (system : System Shared Event Request Op Reply α) : Prop where
  refl : ∀ process shared, discipline.rely process shared shared
  idle : ∀ process, Stable discipline process (discipline.idle process)
  happens : ∀ event before after, discipline.holds before →
    system.happen event before = some after →
      discipline.holds after ∧ ∀ process, discipline.rely process before after
  breaks : ∀ process shared, discipline.holds shared →
    Keeps discipline process shared (system.abandon process shared) ∧
      discipline.idle process (system.abandon process shared)

variable {discipline : Discipline Shared} {system : System Shared Event Request Op Reply α}
  {admits : Shared → Nat → Op → Prop}

theorem Outlined.step (sound : Sound discipline system)
    (programs : ∀ process request, Outline discipline system admits process
      (system.program request) (discipline.idle process))
    {before after : Processes Shared Op Reply α} {move : Move Event Request}
    (outlined : Outlined discipline system admits before) (admitted : Allows admits before move)
    (moved : next system before move = some after) :
    Outlined discipline system admits after := by
  have stays : ∀ process, Keeps discipline process before.shared before.shared := fun _ =>
    ⟨outlined.1, fun other _ => sound.refl other _⟩
  cases move with
  | happens event =>
    obtain ⟨shared, happened, rfl⟩ := Option.map_eq_some_iff.mp moved
    obtain ⟨holds, kept⟩ := sound.happens event _ _ outlined.1 happened
    exact ⟨holds, fun process => (outlined.2 process).kept (sound.idle process) (kept process)⟩
  | begins process request =>
    have stands := outlined.2 process
    rw [next] at moved
    split at moved
    case h_1 unused =>
      cases moved
      rw [unused] at stands
      exact outlined.moved sound.idle (stays process) ⟨_, programs process request, stands⟩
    case h_2 => cases moved
  | calls process =>
    have stands := outlined.2 process
    rw [next] at moved
    rw [Allows] at admitted
    split at moved
    case h_1 op rest current =>
      rw [current] at stands admitted
      obtain ⟨done, performed, rfl⟩ := Option.map_eq_some_iff.mp moved
      obtain ⟨now, ⟨_, later, triple, goesOn⟩, holds⟩ := stands
      obtain ⟨keeps, reached⟩ := triple _ _ _ outlined.1 holds admitted performed
      exact outlined.moved sound.idle keeps ⟨_, goesOn done.2, reached⟩
    case h_2 => cases moved
  | breaks process =>
    rw [next] at moved
    split at moved
    case h_1 =>
      cases moved
      obtain ⟨keeps, idle⟩ := sound.breaks process _ outlined.1
      exact outlined.moved sound.idle keeps idle
    case h_2 => cases moved
  | ends process =>
    have stands := outlined.2 process
    rw [next] at moved
    split at moved
    case h_1 current =>
      cases moved
      rw [current] at stands
      obtain ⟨now, ⟨_, idle⟩, holds⟩ := stands
      exact outlined.moved sound.idle (stays process) (idle _ outlined.1 holds)
    case h_2 => cases moved

/-- **The rule of the system.** Where every program has an outline, every state that is reached
keeps the invariant, and every process stands at a point of its outline. -/
theorem outlined (sound : Sound discipline system)
    (programs : ∀ process request, Outline discipline system admits process
      (system.program request) (discipline.idle process))
    {start state : Processes Shared Op Reply α} (initial : discipline.holds start.shared)
    (unused : ∀ process, start.running process = none)
    (idle : ∀ process, discipline.idle process start.shared)
    (reached : ReachableBy (next system) (Allows admits) start state) :
    Outlined discipline system admits state := by
  refine reached.invariant _ ⟨initial, fun process => ?_⟩
    fun _ _ _ outlined admitted moved => outlined.step sound programs admitted moved
  rw [unused process]
  exact idle process

/-- What is true of every program, and of what a call of it leaves to do, is true of everything
that runs. -/
theorem each_program {holds : Program Op Reply α → Prop}
    (programs : ∀ request, holds (system.program request))
    (calls : ∀ op rest reply, holds (.call op rest) → holds (rest reply))
    {allows : Processes Shared Op Reply α → Move Event Request → Prop}
    {start state : Processes Shared Op Reply α} (unused : ∀ process, start.running process = none)
    (reached : ReachableBy (next system) allows start state) :
    ∀ process program, state.running process = some program → holds program := by
  refine reached.invariant
    (fun state => ∀ process program, state.running process = some program → holds program)
    (fun process program runs => ?_) fun before move after holding _ moved => ?_
  · rw [unused process] at runs
    cases runs
  · have updated : ∀ (process : Nat) (running : Option (Program Op Reply α)),
        (∀ program, running = some program → holds program) → ∀ other program,
          Function.update before.running process running other = some program →
            holds program := by
      intro process running fine other program runs
      by_cases same : other = process
      · rw [same, Function.update_self] at runs
        exact fine program runs
      · rw [Function.update_of_ne same] at runs
        exact holding other program runs
    cases move with
    | happens event =>
      obtain ⟨shared, _, rfl⟩ := Option.map_eq_some_iff.mp moved
      exact holding
    | begins process request =>
      rw [next] at moved
      split at moved
      case h_1 =>
        cases moved
        exact updated process _ fun program same => Option.some.inj same ▸ programs request
      case h_2 => cases moved
    | calls process =>
      rw [next] at moved
      split at moved
      case h_1 op rest current =>
        obtain ⟨done, _, rfl⟩ := Option.map_eq_some_iff.mp moved
        exact updated process _ fun program same =>
          Option.some.inj same ▸ calls op rest done.2 (holding process _ current)
      case h_2 => cases moved
    | breaks process =>
      rw [next] at moved
      split at moved
      case h_1 =>
        cases moved
        exact updated process _ fun program same => nomatch same
      case h_2 => cases moved
    | ends process =>
      rw [next] at moved
      split at moved
      case h_1 =>
        cases moved
        exact updated process _ fun program same => nomatch same
      case h_2 => cases moved

end Toard.Library.Concurrent
