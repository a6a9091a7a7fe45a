/-
**Programs that call operations, and die between them.**

A program is a tree: it is done with a result, or it calls an operation and goes on with the reply.
`perform` says what an operation does to the state and what it replies; whether it fails is decided
by the environment at each call, and the process may end between any two calls.

* `Program`, with its monad; `Fallible`, programs that may give up.
* `Through`: what holds at each call of a program, whatever fails that may fail.
* `Through.bind`, `Through.mono`: how such facts compose.
* `run`: the result when nothing fails.
* `Uses`, `Uses.through`: what all calls of a program have in common, and what follows from it.
-/

import Mathlib.Tactic.TypeStar

namespace Toard.Library

/-- A program over operations, each with its replies. -/
inductive Program (Op : Type) (Reply : Op → Type) (α : Type) : Type where
  | done (result : α)
  | call (op : Op) (rest : Reply op → Program Op Reply α)

namespace Program

variable {Op : Type} {Reply : Op → Type} {α β : Type}

def bind : Program Op Reply α → (α → Program Op Reply β) → Program Op Reply β
  | .done result, next => next result
  | .call op rest, next => .call op fun reply => (rest reply).bind next

instance : Monad (Program Op Reply) where
  pure := .done
  bind := bind

/-- The program that calls one operation. -/
def request (op : Op) : Program Op Reply (Reply op) := .call op .done

/-! ### Facts about every call -/

section Through

variable {σ : Type} (perform : (op : Op) → Bool → σ → Reply op × σ)

/-- Through a program: `during` holds before each call and at the end, each call that the
environment admits is `sound`, and the result is as `ends` says. -/
def Through (during : σ → Prop) (admits sound : Op → Bool → σ → Prop) (ends : α → σ → Prop) :
    Program Op Reply α → σ → Prop
  | .done result, state => during state ∧ ends result state
  | .call op rest, state => during state ∧ ∀ fails, admits op fails state →
      sound op fails state ∧
        Through during admits sound ends (rest (perform op fails state).1) (perform op fails state).2

variable {perform} {during : σ → Prop} {admits sound : Op → Bool → σ → Prop}

theorem Through.now {ends : α → σ → Prop} {program : Program Op Reply α} {state : σ}
    (through : Through perform during admits sound ends program state) : during state := by
  cases program with
  | done => exact through.1
  | call => exact through.1

/-- **The composition rule.** -/
theorem through_bind {program : Program Op Reply α} {next : α → Program Op Reply β}
    {ends : β → σ → Prop} {state : σ} :
    Through perform during admits sound ends (program >>= next) state ↔
      Through perform during admits sound
        (fun result => Through perform during admits sound ends (next result)) program state := by
  induction program generalizing state with
  | done result => exact ⟨fun through => ⟨through.now, through⟩, fun through => through.2⟩
  | call op rest ih =>
    refine and_congr_right fun _ => forall_congr' fun fails => imp_congr_right fun _ => ?_
    exact and_congr_right fun _ => ih _

/-- **The consequence rule.** -/
theorem Through.mono {ends ends' : α → σ → Prop} {program : Program Op Reply α} {state : σ}
    (through : Through perform during admits sound ends program state)
    (weaker : ∀ result state, during state → ends result state → ends' result state) :
    Through perform during admits sound ends' program state := by
  induction program generalizing state with
  | done result => exact ⟨through.1, weaker _ _ through.1 through.2⟩
  | call op rest ih =>
    exact ⟨through.1, fun fails admitted =>
      ⟨(through.2 fails admitted).1, ih _ (through.2 fails admitted).2⟩⟩

theorem Through.imp {sound' : Op → Bool → σ → Prop} {ends : α → σ → Prop}
    {program : Program Op Reply α} {state : σ}
    (through : Through perform during admits sound ends program state)
    (weaker : ∀ op fails state, sound op fails state → sound' op fails state) :
    Through perform during admits sound' ends program state := by
  induction program generalizing state with
  | done result => exact through
  | call op rest ih =>
    exact ⟨through.1, fun fails admitted =>
      ⟨weaker _ _ _ (through.2 fails admitted).1, ih _ (through.2 fails admitted).2⟩⟩

theorem Through.relax {during' : σ → Prop} {ends : α → σ → Prop} {program : Program Op Reply α}
    {state : σ} (through : Through perform during admits sound ends program state)
    (wider : ∀ state, during state → during' state) :
    Through perform during' admits sound ends program state := by
  induction program generalizing state with
  | done result => exact ⟨wider _ through.1, through.2⟩
  | call op rest ih =>
    exact ⟨wider _ through.1, fun fails admitted =>
      ⟨(through.2 fails admitted).1, ih _ (through.2 fails admitted).2⟩⟩

/-- What each sound call keeps holds through the program, and helps with the facts of the calls. -/
theorem Through.strengthen {extra : σ → Prop} {sound' : Op → Bool → σ → Prop} {ends : α → σ → Prop}
    {program : Program Op Reply α} {state : σ}
    (through : Through perform during admits sound ends program state) (now : extra state)
    (keeps : ∀ op fails state, during state → extra state → admits op fails state →
      sound op fails state → sound' op fails state ∧ extra (perform op fails state).2) :
    Through perform extra admits sound' ends program state := by
  induction program generalizing state with
  | done result => exact ⟨now, through.2⟩
  | call op rest ih =>
    refine ⟨now, fun fails admitted => ?_⟩
    obtain ⟨isSound, later⟩ := through.2 fails admitted
    obtain ⟨isSound', after⟩ := keeps op fails state through.1 now admitted isSound
    exact ⟨isSound', ih _ later after⟩

theorem Through.bind {program : Program Op Reply α} {next : α → Program Op Reply β}
    {middle : α → σ → Prop} {ends : β → σ → Prop} {state : σ}
    (first : Through perform during admits sound middle program state)
    (second : ∀ result state, during state → middle result state →
      Through perform during admits sound ends (next result) state) :
    Through perform during admits sound ends (program >>= next) state :=
  through_bind.mpr (first.mono second)

end Through

/-! ### Facts about the operations alone -/

/-- All calls of a program are allowed, and its result is as `ends` says, whatever the replies. -/
def Uses (allowed : Op → Prop) (ends : α → Prop) : Program Op Reply α → Prop
  | .done result => ends result
  | .call op rest => allowed op ∧ ∀ reply, (rest reply).Uses allowed ends

variable {allowed : Op → Prop} {ends : α → Prop}

theorem Uses.bind {program : Program Op Reply α} {next : α → Program Op Reply β}
    {concludes : β → Prop} (first : program.Uses allowed ends)
    (second : ∀ result, ends result → (next result).Uses allowed concludes) :
    (program >>= next).Uses allowed concludes := by
  induction program with
  | done result => exact second result first
  | call op rest ih => exact ⟨first.1, fun reply => ih reply (first.2 reply)⟩

theorem Uses.mono {allowed' : Op → Prop} {ends' : α → Prop} {program : Program Op Reply α}
    (uses : program.Uses allowed ends) (wider : ∀ op, allowed op → allowed' op)
    (weaker : ∀ result, ends result → ends' result) : program.Uses allowed' ends' := by
  induction program with
  | done result => exact weaker result uses
  | call op rest ih => exact ⟨wider op uses.1, fun reply => ih reply (uses.2 reply)⟩

/-- **From the operations to the states.** What every allowed operation keeps holds through a
program that calls no others. -/
theorem Uses.through {σ : Type} {perform : (op : Op) → Bool → σ → Reply op × σ}
    {during : σ → Prop} {admits sound : Op → Bool → σ → Prop} {program : Program Op Reply α}
    (uses : program.Uses allowed ends)
    (keeps : ∀ op fails state, allowed op → during state → admits op fails state →
      sound op fails state ∧ during (perform op fails state).2)
    {state : σ} (now : during state) :
    Through perform during admits sound (fun result _ => ends result) program state := by
  induction program generalizing state with
  | done result => exact ⟨now, uses⟩
  | call op rest ih =>
    refine ⟨now, fun fails admitted => ?_⟩
    obtain ⟨isSound, after⟩ := keeps op fails state uses.1 now admitted
    exact ⟨isSound, ih _ (uses.2 _) after⟩

theorem Uses.along {σ : Type} {perform : (op : Op) → Bool → σ → Reply op × σ}
    {during : σ → Prop} {admits sound : Op → Bool → σ → Prop} {ends' : α → σ → Prop}
    {program : Program Op Reply α} {state : σ} (uses : program.Uses allowed ends)
    (through : Through perform during admits sound ends' program state) :
    Through perform during admits (fun op fails state => allowed op ∧ sound op fails state)
      (fun result state => ends result ∧ ends' result state) program state := by
  induction program generalizing state with
  | done result => exact ⟨through.1, uses, through.2⟩
  | call op rest ih =>
    refine ⟨through.1, fun fails admitted => ?_⟩
    obtain ⟨isSound, later⟩ := through.2 fails admitted
    exact ⟨⟨uses.1, isSound⟩, ih _ (uses.2 _) later⟩

/-! ### When nothing fails -/

/-- The result and the state at the end, when no operation fails. -/
def run {σ : Type} (perform : (op : Op) → Bool → σ → Reply op × σ) :
    Program Op Reply α → σ → α × σ
  | .done result, state => (result, state)
  | .call op rest, state =>
    run perform (rest (perform op false state).1) (perform op false state).2

section Run

variable {σ : Type} {perform : (op : Op) → Bool → σ → Reply op × σ}

theorem run_bind (program : Program Op Reply α) (next : α → Program Op Reply β) (state : σ) :
    run perform (program >>= next) state
      = run perform (next (run perform program state).1) (run perform program state).2 := by
  induction program generalizing state with
  | done result => rfl
  | call op rest ih => exact ih _ _

/-- An operation that changes nothing, and never fails. -/
def Reads (perform : (op : Op) → Bool → σ → Reply op × σ) (op : Op) : Prop :=
  ∀ fails state, perform op fails state = ((perform op false state).1, state)

/-- **A program that only reads** ends as it does when nothing fails, and changes nothing. -/
theorem through_of_reads {ends : α → Prop} {program : Program Op Reply α} {state : σ}
    {during : σ → Prop} {admits sound : Op → Bool → σ → Prop}
    (uses : program.Uses (Reads perform) ends) (now : during state)
    (fine : ∀ op fails, Reads perform op → sound op fails state) :
    Through perform during admits sound
      (fun result after => ends result ∧ run perform program state = (result, state) ∧ after = state)
      program state := by
  induction program with
  | done result => exact ⟨now, uses, rfl, rfl⟩
  | call op rest ih =>
    refine ⟨now, fun fails _ => ⟨fine op fails uses.1, ?_⟩⟩
    have later := ih (perform op false state).1 (uses.2 _)
    rw [uses.1 fails state, run, show (perform op false state).2 = state by rw [uses.1 false state]]
    exact later

end Run

/-! ### Programs that may give up -/

end Program

/-- A program that ends with a result, or with the code of the error it gave up on. -/
def Fallible (Op : Type) (Reply : Op → Type) (α : Type) : Type :=
  Program Op Reply (Except String α)

namespace Fallible

open Program

variable {Op : Type} {Reply : Op → Type} {α β : Type}

instance : Monad (Fallible Op Reply) where
  pure result := Program.done (.ok result)
  bind program next := Program.bind program fun
    | .ok result => next result
    | .error code => Program.done (.error code)

/-- The program that gives up. -/
def giveUp (code : String) : Fallible Op Reply α := Program.done (.error code)

/-- The reply of an operation. -/
def ask (op : Op) : Fallible Op Reply (Reply op) := .call op fun reply => .done (.ok reply)

/-- Goes on where a test holds. -/
def ensure (code : String) (holds : Bool) : Fallible Op Reply Unit :=
  if holds then pure () else giveUp code

/-- A value, where there is one. -/
def orGiveUp (code : String) : Option α → Fallible Op Reply α
  | some value => pure value
  | none => giveUp code

/-- The result of a computation that may have failed. -/
def ofExcept : Except String α → Fallible Op Reply α := Program.done

theorem ofExcept_bind (first : Except String α) (next : α → Except String β) :
    (ofExcept first >>= fun result => ofExcept (next result) : Fallible Op Reply β)
      = ofExcept (first >>= next) := by
  cases first with
  | error => rfl
  | ok => rfl

section Through

variable {σ : Type} {perform : (op : Op) → Bool → σ → Reply op × σ} {during : σ → Prop}
  {admits sound : Op → Bool → σ → Prop} {state : σ}

theorem through_bind {program : Fallible Op Reply α} {next : α → Fallible Op Reply β}
    {middle : Except String α → σ → Prop} {ends : Except String β → σ → Prop}
    (first : Through perform during admits sound middle program state)
    (second : ∀ result state, during state → middle (.ok result) state →
      Through perform during admits sound ends (next result) state)
    (fails : ∀ code state, during state → middle (.error code) state → ends (.error code) state) :
    Through perform during admits sound ends (program >>= next : Fallible Op Reply β) state := by
  refine Through.bind first fun result state now reached => ?_
  cases result with
  | ok result => exact second result state now reached
  | error code => exact ⟨now, fails code state now reached⟩

theorem through_ask_bind {op : Op} {next : Reply op → Fallible Op Reply β}
    {ends : Except String β → σ → Prop} (now : during state)
    (called : ∀ fails, admits op fails state → sound op fails state ∧
      Through perform during admits sound ends (next (perform op fails state).1)
        (perform op fails state).2) :
    Through perform during admits sound ends (ask op >>= next : Fallible Op Reply β) state :=
  ⟨now, called⟩

theorem through_ensure_bind {code : String} {holds : Bool} {next : Unit → Fallible Op Reply β}
    {ends : Except String β → σ → Prop} (now : during state)
    (gaveUp : holds = false → ends (.error code) state)
    (rest : holds = true → Through perform during admits sound ends (next ()) state) :
    Through perform during admits sound ends (ensure code holds >>= next : Fallible Op Reply β)
      state := by
  cases holds with
  | true => exact rest rfl
  | false => exact ⟨now, gaveUp rfl⟩

end Through

theorem run_bind_eq_ok {σ : Type} {perform : (op : Op) → Bool → σ → Reply op × σ} {state after : σ}
    {program : Fallible Op Reply α} {next : α → Fallible Op Reply β} {result : β} :
    run perform (program >>= next : Fallible Op Reply β) state = (.ok result, after) ↔
      ∃ first between, run perform program state = (.ok first, between) ∧
        run perform (next first) between = (.ok result, after) := by
  have step : run perform (program >>= next : Fallible Op Reply β) state
      = run perform (match (run perform program state).1 with
        | .ok first => next first
        | .error code => giveUp code) (run perform program state).2 := Program.run_bind program _ state
  rw [step]
  generalize run perform program state = reached
  obtain ⟨first | first, between⟩ := reached
  · exact ⟨nofun, nofun⟩
  · refine ⟨fun ends => ⟨first, between, rfl, ends⟩, ?_⟩
    rintro ⟨_, _, ⟨⟩, ends⟩
    exact ends

/-- What holds of the result, if there is one. -/
def Gives (ends : α → Prop) : Except String α → Prop
  | .ok result => ends result
  | .error _ => True

section Uses

variable {allowed : Op → Prop}

theorem uses_pure {ends : α → Prop} {result : α} (ended : ends result) :
    Uses allowed (Gives ends) (pure result : Fallible Op Reply α) := ended

theorem uses_giveUp {ends : α → Prop} (code : String) :
    Uses allowed (Gives ends) (giveUp code : Fallible Op Reply α) := trivial

theorem uses_bind {ends : α → Prop} {concludes : β → Prop} {program : Fallible Op Reply α}
    {next : α → Fallible Op Reply β} (first : Uses allowed (Gives ends) program)
    (second : ∀ result, ends result → Uses allowed (Gives concludes) (next result)) :
    Uses allowed (Gives concludes) (program >>= next : Fallible Op Reply β) := by
  refine Uses.bind first fun result ended => ?_
  cases result with
  | ok result => exact second result ended
  | error => trivial

theorem uses_then {ends : β → Prop} {program : Fallible Op Reply α} {next : α → Fallible Op Reply β}
    (first : Uses allowed (Gives fun _ => True) program)
    (second : ∀ result, Uses allowed (Gives ends) (next result)) :
    Uses allowed (Gives ends) (program >>= next : Fallible Op Reply β) :=
  uses_bind first fun result _ => second result

theorem uses_ofExcept {ends : α → Prop} {result : Except String α}
    (ended : ∀ value, result = .ok value → ends value) :
    Uses allowed (Gives ends) (ofExcept result : Fallible Op Reply α) := by
  cases result with
  | ok value => exact ended value rfl
  | error => trivial

theorem uses_ask_bind {ends : β → Prop} {op : Op} {next : Reply op → Fallible Op Reply β}
    (permitted : allowed op) (rest : ∀ reply, Uses allowed (Gives ends) (next reply)) :
    Uses allowed (Gives ends) (ask op >>= next : Fallible Op Reply β) :=
  ⟨permitted, rest⟩

theorem uses_ensure_bind {ends : β → Prop} {code : String} {holds : Bool}
    {next : Unit → Fallible Op Reply β} (rest : holds = true → Uses allowed (Gives ends) (next ())) :
    Uses allowed (Gives ends) (ensure code holds >>= next : Fallible Op Reply β) := by
  cases holds with
  | true => exact rest rfl
  | false => trivial

end Uses

end Fallible

end Toard.Library
