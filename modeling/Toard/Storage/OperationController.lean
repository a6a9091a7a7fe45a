/-
**Letting operations in (`operation-controller.ts`).**

So many operations run at a time; the others wait in a queue. A waiter leaves the queue when it is
given a lease, when its timer fires, or when its signal aborts, and each of these is a callback of its
own. An operation that fails may sleep and ask again.
-/

import Mathlib.Algebra.Group.Nat.Defs
import Mathlib.Data.List.Basic
import Toard.Library.Transition

namespace Toard.Storage.Controller

open Toard.Library (Reachable ReachableBy run)

/-- A lease, and the call that it was given to. `released` is the variable of its closure. -/
structure AdmissionLease where
  id : Nat
  owner : Nat
  queueWaitMs : Int
  inFlight : Int
  released : Bool
deriving DecidableEq

structure QueueEntry where
  id : Nat
  owner : Nat
  enqueuedAt : Int
deriving DecidableEq

structure OperationOptions where
  signal : Bool
  retryTransient : Option Bool
  retryOverload : Option Bool
deriving DecidableEq

/-- What `isOverloadError` and `isTransientNetworkError` say of an error. -/
structure Failure where
  overload : Bool
  transientNetwork : Bool
deriving DecidableEq

inductive Result
  | returned
  | overload
  | admissionTimeout (queueWaitMs inFlight : Int)
  | aborted
  | failed (failure : Failure)
deriving DecidableEq

/-- Where a call of `run` stands. -/
inductive Status
  | waiting (entry : Nat)
  | holding (lease : Nat)
  | sleeping (ms : Nat)
  | finished (result : Result)
deriving DecidableEq

structure Call where
  options : OperationOptions
  attempt : Nat
  networkFailures : Nat
  overloadFailures : Nat
  status : Status
deriving DecidableEq

inductive Settlement
  | granted
  | timedOut
  | aborted
deriving DecidableEq

def NETWORK_ATTEMPTS : Nat := 5

def NETWORK_BACKOFF_BASE_MS : Nat := 150

def OVERLOAD_ATTEMPTS : Nat := 2

/-- The controller, with all leases that were given, the timers and listeners that are set, the
calls, how many waiters there were, and how those left. -/
structure System where
  maxConcurrent : Nat
  active : Int
  queue : List QueueEntry
  leases : List AdmissionLease
  timers : List Nat
  listeners : List Nat
  calls : Nat → Option Call
  entries : Nat
  settled : List (Nat × Settlement)

def System.setCall (system : System) (id : Nat) (call : Call) : System :=
  { system with calls := Function.update system.calls id (some call) }

def System.setStatus (system : System) (id : Nat) (status : Status) : System :=
  match system.calls id with
  | none => system
  | some call => system.setCall id { call with status }

/-! ### Leases and the queue -/

/-- `createLease` -/
def createLease (system : System) (owner : Nat) (enqueuedAt now : Int) : System :=
  { system.setStatus owner (.holding system.leases.length) with
    active := system.active + 1
    leases := system.leases ++ [{
      id := system.leases.length, owner, queueWaitMs := now - enqueuedAt
      inFlight := system.active + 1, released := false }] }

/-- `cleanupEntry` -/
def cleanupEntry (system : System) (entry : QueueEntry) : System :=
  { system with timers := system.timers.erase entry.id, listeners := system.listeners.erase entry.id }

def grant (system : System) (entry : QueueEntry) (rest : List QueueEntry) (now : Int) : System :=
  createLease
    { cleanupEntry { system with queue := rest } entry with
      settled := system.settled ++ [(entry.id, .granted)] }
    entry.owner entry.enqueuedAt now

/-- `drain`; the loop takes a waiter in each turn. -/
def drain (now : Int) : Nat → System → System
  | 0, system => system
  | turns + 1, system =>
    if system.active < system.maxConcurrent then
      match system.queue with
      | [] => system
      | entry :: rest => drain now turns (grant system entry rest now)
    else system

/-- `release` -/
def release (system : System) (lease : Nat) (now : Int) : System :=
  if system.leases.any fun other => other.id == lease && other.released then system
  else
    let system := { system with
      active := system.active - 1
      leases := system.leases.map fun other =>
        if other.id = lease then { other with released := true } else other }
    drain now system.queue.length system

/-- `removeQueuedEntry`, and the waiter's promise is rejected: its call ends. -/
def removeQueuedEntry (system : System) (id : Nat) (settlement : Settlement)
    (result : QueueEntry → Result) : System :=
  match system.queue.find? fun entry => entry.id = id with
  | none => system
  | some entry =>
    { cleanupEntry { system with queue := system.queue.filter fun other => other.id ≠ id } entry with
      settled := system.settled ++ [(id, settlement)] }.setStatus entry.owner
        (.finished (result entry))

/-- `acquire`: the call is rejected, is given a lease, or waits. -/
def acquire (system : System) (id : Nat) (call : Call) (aborted : Bool) (now : Int) : System :=
  let call := { call with attempt := call.attempt + 1 }
  if call.options.signal && aborted then system.setCall id { call with status := .finished .aborted }
  else if system.active < system.maxConcurrent then createLease (system.setCall id call) id now now
  else
    let entry := system.entries
    { system.setCall id { call with status := .waiting entry } with
      queue := system.queue ++ [{ id := entry, owner := id, enqueuedAt := now }]
      timers := system.timers ++ [entry]
      listeners := if call.options.signal then system.listeners ++ [entry] else system.listeners
      entries := entry + 1 }

/-- The `catch` of `run`: a call that failed sleeps, or ends. -/
def caught (call : Call) (failure : Failure) (jitter : Nat) : Call :=
  if failure.overload then
    let call := { call with overloadFailures := call.overloadFailures + 1 }
    if call.options.retryOverload ≠ some false ∧ call.overloadFailures < OVERLOAD_ATTEMPTS then
      { call with status := .sleeping (100 + jitter) }
    else { call with status := .finished .overload }
  else if call.options.retryTransient = some true ∧ failure.transientNetwork then
    let call := { call with networkFailures := call.networkFailures + 1 }
    if call.networkFailures < NETWORK_ATTEMPTS then
      { call with status := .sleeping (NETWORK_BACKOFF_BASE_MS * 2 ^ (call.networkFailures - 1)) }
    else { call with status := .finished (.failed failure) }
  else { call with status := .finished (.failed failure) }

/-! ### Every order of events -/

inductive Event
  | run (id : Nat) (options : OperationOptions) (aborted : Bool)
  | complete (id : Nat)
  | fail (id : Nat) (failure : Failure) (jitter : Nat)
  | wake (id : Nat) (aborted : Bool)
  | timeout (entry : Nat)
  | abort (entry : Nat)
deriving DecidableEq

/-- An operation ends: its lease is released, in the same turn as its call goes on. -/
def ended (system : System) (id : Nat) (call : Call) (lease : Nat) (now : Int) : System :=
  release (system.setCall id call) lease now

/-- An event at a time; `none` if it cannot happen. -/
def next (system : System) (moment : Int × Event) : Option System :=
  let now := moment.1
  match moment.2 with
  | .run id options aborted =>
    if (system.calls id).isSome then none
    else some (acquire system id {
      options, attempt := 0, networkFailures := 0, overloadFailures := 0, status := .sleeping 0 }
      aborted now)
  | .complete id =>
    match system.calls id with
    | some call =>
      match call.status with
      | .holding lease => some (ended system id { call with status := .finished .returned } lease now)
      | _ => none
    | none => none
  | .fail id failure jitter =>
    match system.calls id with
    | some call =>
      match call.status with
      | .holding lease => some (ended system id (caught call failure jitter) lease now)
      | _ => none
    | none => none
  | .wake id aborted =>
    match system.calls id with
    | some call =>
      match call.status with
      | .sleeping _ => some (acquire system id call aborted now)
      | _ => none
    | none => none
  | .timeout entry =>
    if entry ∈ system.timers then
      some (removeQueuedEntry { system with timers := system.timers.erase entry } entry .timedOut
        fun waiter => .admissionTimeout (now - waiter.enqueuedAt) system.active)
    else none
  | .abort entry =>
    if entry ∈ system.listeners then
      some (removeQueuedEntry { system with listeners := system.listeners.erase entry } entry .aborted
        fun _ => .aborted)
    else none

def start (maxConcurrent : Nat) : System where
  maxConcurrent := maxConcurrent
  active := 0
  queue := []
  leases := []
  timers := []
  listeners := []
  calls _ := none
  entries := 0
  settled := []

end Toard.Storage.Controller
