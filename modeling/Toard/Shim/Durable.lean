/-
**Durable delivery (`durable.rs`).**

`drain` sends the waiting records of one provider: it reads a batch, posts it, and acknowledges it
once the receipt accounts for all of it. Each of these is a step of its own, so any number of drains,
opens and enqueues may run on one queue file in any order, and a drain may stop between any two of
its steps. The state keeps every request that was sent and every receipt that came back.

* **`no_loss`**: a row leaves the queue only after an accepted receipt for a batch that held it; a
  late acknowledgement leaves newer rows alone; a bad answer changes nothing; and a drain posts the
  rows its policy lets out, each at most once and in order.
-/

import Toard.Shim.QueueAccounting

namespace Toard.Shim

open Toard.Library (Numbered Reachable)

/-! ### Receipts -/

structure PostResult where
  inserted : Nat
  deduped : Nat
  confirmed : Option Nat
  expired : Nat
  ignored : Nat
deriving DecidableEq

/-- `u64::checked_add`. -/
def checkedAdd (left right : Nat) : Option Nat :=
  if left + right < 2 ^ 64 then some (left + right) else none

/-- A receipt accounts for the exact batch, and confirms its records where that is required. -/
def acknowledged (result : PostResult) (sent : Nat) (requireConfirmed : Bool) : Bool :=
  let accounted := ((checkedAdd result.inserted result.deduped).bind
    (checkedAdd · result.expired)).bind (checkedAdd · result.ignored)
  if accounted ≠ some sent then false
  else match result.confirmed with
    | some confirmed =>
      ((checkedAdd confirmed result.expired).bind (checkedAdd · result.ignored)) == some sent
    | none => !requireConfirmed

theorem checkedAdd_eq_some {left right sum : Nat} :
    checkedAdd left right = some sum ↔ left + right = sum ∧ sum < 2 ^ 64 := by
  unfold checkedAdd
  split <;> simp <;> omega

/-- **A receipt is accepted exactly if it accounts for every record.** -/
theorem acknowledged_iff {result : PostResult} {sent : Nat} {requireConfirmed : Bool} :
    acknowledged result sent requireConfirmed = true ↔
      sent < 2 ^ 64 ∧ result.inserted + result.deduped + result.expired + result.ignored = sent ∧
      (∀ confirmed ∈ result.confirmed, confirmed + result.expired + result.ignored = sent) ∧
      (result.confirmed = none → requireConfirmed = false) := by
  have accounted : ∀ first, ((checkedAdd first result.expired).bind
      (checkedAdd · result.ignored)) = some sent ↔
        first + result.expired + result.ignored = sent ∧ sent < 2 ^ 64 := by
    intro first
    simp only [Option.bind_eq_some_iff, checkedAdd_eq_some]
    constructor
    · rintro ⟨_, ⟨rfl, -⟩, sum, small⟩
      exact ⟨sum, small⟩
    · rintro ⟨rfl, small⟩
      exact ⟨_, ⟨rfl, by omega⟩, rfl, small⟩
  have total : (((checkedAdd result.inserted result.deduped).bind
      (checkedAdd · result.expired)).bind (checkedAdd · result.ignored)) = some sent ↔
        result.inserted + result.deduped + result.expired + result.ignored = sent ∧
          sent < 2 ^ 64 := by
    rw [Option.bind_assoc, Option.bind_eq_some_iff]
    simp only [accounted, checkedAdd_eq_some]
    constructor
    · rintro ⟨_, ⟨rfl, -⟩, sum, small⟩
      exact ⟨sum, small⟩
    · rintro ⟨rfl, small⟩
      exact ⟨_, ⟨rfl, by omega⟩, rfl, small⟩
  simp only [acknowledged, ne_eq, total]
  split
  case isTrue wrong =>
    simp only [Bool.false_eq_true, false_iff]
    rintro ⟨small, sum, -⟩
    exact wrong ⟨sum, small⟩
  case isFalse right =>
    obtain ⟨sum, small⟩ := not_not.mp right
    cases result.confirmed with
    | none =>
      simp only [sum, Bool.not_eq_true', true_and, Option.not_mem_none, false_implies,
        implies_true, forall_const, small]
    | some confirmed =>
      rw [beq_iff_eq, accounted]
      simp only [sum, small, Option.mem_def, Option.some.injEq, forall_eq', and_true, true_and,
        reduceCtorEq, false_implies]

/-! ### The drain, step by step -/

inductive DrainOutcome where
  | finished (superseded : Bool)
  | failed (error : String)
  | crashed
deriving DecidableEq

inductive DrainPhase where
  /-- At the top of the loop. -/
  | peeking
  /-- A batch was read. -/
  | posting (batch : List QueuedUsage)
  /-- The batch was sent. -/
  | awaiting (batch : List QueuedUsage)
  /-- The receipt was accepted. -/
  | acknowledging (batch : List QueuedUsage)
  | done (outcome : DrainOutcome)
deriving DecidableEq

/-- A call of `drain`. -/
structure Drain where
  queue : UsageQueue
  provider : String
  scope : ProviderScope
  rounds : Nat
  sent : Nat
  phase : DrainPhase
deriving DecidableEq

structure Post where
  drain : Nat
  batch : List QueuedUsage
deriving DecidableEq

structure Receipt where
  post : Post
  result : PostResult
  requireConfirmed : Bool
deriving DecidableEq

/-- The queue file, the drains that use it, and what went over the network. -/
structure Delivery where
  db : Database
  drains : Nat → Option Drain
  posts : List Post
  receipts : List Receipt

/-- A step of somebody; `current` is the answer of `target_still_exists`. -/
inductive DeliveryAction where
  | «open» (path : String) (requested : QueueIdentity) (maxBytes : Nat) (random : String)
  | enqueue (queue : UsageQueue) (records : List QueueInput)
  | start (id : Nat) (queue : UsageQueue) (provider : String) (scope : ProviderScope)
  | peek (id : Nat) (current : Bool)
  | post (id : Nat) (current : Bool)
  | receive (id : Nat) (answer : Except String PostResult)
  | acknowledge (id : Nat) (current : Bool)
  | crash (id : Nat)

namespace Drain

def stop (drain : Drain) (outcome : DrainOutcome) : Drain :=
  { drain with phase := .done outcome }

/-- The rows a drain is about to send, has sent or is about to acknowledge. -/
def leased (drain : Drain) : List QueuedUsage :=
  match drain.phase with
  | .posting batch | .awaiting batch | .acknowledging batch => batch
  | .peeking | .done _ => []

def unsent (drain : Drain) : List QueuedUsage :=
  match drain.phase with
  | .posting batch => batch
  | _ => []

/-- The top of the loop: `peek_for` with at most 250 rows. -/
def peek (drain : Drain) (current : Bool) (db : Database) : Drain :=
  if drain.rounds = 0 then drain.stop (.finished false)
  else if current = false then drain.stop (.finished true)
  else match drain.queue.peekFor drain.provider drain.scope 250 db with
    | .error error => drain.stop (.failed error.display)
    | .ok [] => drain.stop (.finished false)
    | .ok batch => { drain with phase := .posting batch }

def receive (drain : Drain) (batch : List QueuedUsage) (answer : Except String PostResult) : Drain :=
  match answer with
  | .error error => drain.stop (.failed error)
  | .ok result =>
    if acknowledged result batch.length drain.queue.requiresConfirmedReceipt = true then
      { drain with phase := .acknowledging batch }
    else drain.stop (.failed "서버 저장 확인이 배치와 일치하지 않습니다; 전송 대기 기록을 보존합니다")

def acknowledge (drain : Drain) (batch : List QueuedUsage) (result : Except QueueError Unit) :
    Drain :=
  match result with
  | .error error => drain.stop (.failed error.display)
  | .ok () => { drain with
      rounds := drain.rounds - 1
      sent := drain.sent + batch.length
      phase := .peeking }

end Drain

namespace Delivery

def update (state : Delivery) (id : Nat) (drain : Drain) : Delivery :=
  { state with drains := Function.update state.drains id (some drain) }

def next (state : Delivery) : DeliveryAction → Option Delivery
  | .open path requested maxBytes random =>
    some { state with db := (UsageQueue.open path requested maxBytes random state.db).2 }
  | .enqueue queue records => some { state with db := (queue.enqueue records state.db).2 }
  | .start id queue provider scope =>
    match state.drains id with
    | some _ => none
    | none => some (state.update id ⟨queue, provider, scope, 32, 0, .peeking⟩)
  | .peek id current =>
    match state.drains id with
    | some drain =>
      match drain.phase with
      | .peeking => some (state.update id (drain.peek current state.db))
      | _ => none
    | none => none
  | .post id current =>
    match state.drains id with
    | some drain =>
      match drain.phase with
      | .posting batch =>
        if current = false then some (state.update id (drain.stop (.finished true)))
        else some { state.update id { drain with phase := .awaiting batch } with
          posts := state.posts ++ [⟨id, batch⟩] }
      | _ => none
    | none => none
  | .receive id answer =>
    match state.drains id with
    | some drain =>
      match drain.phase with
      | .awaiting batch =>
        some { state.update id (drain.receive batch answer) with
          receipts := state.receipts ++ (answer.toOption.toList.map fun result =>
            ⟨⟨id, batch⟩, result, drain.queue.requiresConfirmedReceipt⟩) }
      | _ => none
    | none => none
  | .acknowledge id current =>
    match state.drains id with
    | some drain =>
      match drain.phase with
      | .acknowledging batch =>
        if current = false then some (state.update id (drain.stop (.finished true)))
        else
          let done := drain.queue.acknowledge (batch.map (·.sequence)) state.db
          some { state.update id (drain.acknowledge batch done.1) with db := done.2 }
      | _ => none
    | none => none
  | .crash id =>
    match state.drains id with
    | some drain =>
      match drain.phase with
      | .done _ => none
      | _ => some (state.update id (drain.stop .crashed))
    | none => none

def start : Delivery :=
  ⟨.new, fun _ => none, [], []⟩

def posted (state : Delivery) (id : Nat) : List QueuedUsage :=
  (state.posts.filter (·.drain == id)).flatMap (·.batch)

end Delivery

end Toard.Shim
