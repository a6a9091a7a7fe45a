/-
**The cache of user keys and the asynchronous steps around it.**

`UserKeyCache` keeps copies of unwrapped user keys, shares one load among the callers that miss
together, and wipes in place every buffer it has made. JavaScript runs one piece of code at a time:
the pieces between two `await`s are the steps of `next`, and the event decides which of them is
next and what the clock shows there.

The metrics hook (`observe`) reads nothing of the keys and is left out.
-/

import Toard.Library.Keyed
import Toard.Library.Transition
import Mathlib.Logic.Function.Iterate

namespace Toard.Keys

open Toard.Library (OrderedMap)

def USER_KEY_LENGTH : Nat := 32

def DEFAULT_CACHE_CAPACITY : Nat := 256

structure UserKeyCacheOptions where
  ttlMs : Int
  capacity : Nat := DEFAULT_CACHE_CAPACITY
  capacity_pos : 0 < capacity := by decide

/-- What a buffer is made for: the source of a load, the copy of an entry, or the working copy of
a call. -/
inductive Owner where
  | load (flight : Nat)
  | entry (cacheKey : String)
  | call (call : Nat)
deriving DecidableEq

structure Cell where
  bytes : List UInt8
  original : List UInt8
  owner : Owner
  cacheKey : String
  madeAt : Int
deriving DecidableEq

/-- `buffer.fill(0)`. -/
def Cell.fill (cell : Cell) : Cell :=
  { cell with bytes := List.replicate cell.bytes.length 0 }

def Cell.Zeroed (cell : Cell) : Prop := ∀ byte ∈ cell.bytes, byte = 0

structure UserKeyCacheEntry where
  key : Nat
  expiresAt : Int
deriving DecidableEq

inductive LoadPromise where
  | pending
  | fulfilled (source : Nat)
  | rejected
deriving DecidableEq

structure InflightUserKeyLoad where
  cacheKey : String
  generation : Nat
  promise : LoadPromise := .pending
  waiters : Nat := 0
  settled : Bool := false
  source : Option Nat := none
deriving DecidableEq

/-- Where a call of `withKey` stands: it awaits a load, or its operation has a working copy. -/
inductive Call where
  | unmade
  | waiting (cacheKey : String) (flight : Nat)
  | running (cacheKey : String) (workingKey : Nat)
  | finished
deriving DecidableEq

structure ExpiryTimer where
  id : Nat
  delay : Int
deriving DecidableEq

structure State where
  entries : OrderedMap String UserKeyCacheEntry := .empty
  inflight : OrderedMap String Nat := .empty
  generations : OrderedMap String Nat := .empty
  expiryTimer : Option ExpiryTimer := none
  timers : Nat := 0
  flights : Nat → Option InflightUserKeyLoad := fun _ => none
  nextFlight : Nat := 0
  calls : Nat → Call := fun _ => .unmade
  nextCall : Nat := 0
  buffers : Nat → Option Cell := fun _ => none
  nextBuffer : Nat := 0

namespace State

variable (state : State)

def make (owner : Owner) (cacheKey : String) (now : Int) (bytes : List UInt8) : State :=
  { state with
    buffers := Function.update state.buffers state.nextBuffer
      (some { bytes, original := bytes, owner, cacheKey, madeAt := now })
    nextBuffer := state.nextBuffer + 1 }

def bytesOf (buffer : Nat) : List UInt8 := ((state.buffers buffer).map Cell.bytes).getD []

def fill (buffer : Nat) : State :=
  { state with
    buffers := Function.update state.buffers buffer ((state.buffers buffer).map Cell.fill) }

/-- `buffer?.fill(0)`. -/
def wipe : Option Nat → State
  | none => state
  | some buffer => state.fill buffer

def setFlight (flight : Nat) (load : InflightUserKeyLoad) : State :=
  { state with flights := Function.update state.flights flight (some load) }

def setCall (call : Nat) (made : Call) : State :=
  { state with calls := Function.update state.calls call made }

def generation (cacheKey : String) : Nat := (state.generations.get cacheKey).getD 0

def clearExpiryTimer : State := { state with expiryTimer := none }

def rescheduleExpiry (now : Int) : State :=
  match (state.entries.values.map UserKeyCacheEntry.expiresAt).min? with
  | none => state.clearExpiryTimer
  | some expiresAt =>
    { state with
      expiryTimer := some { id := state.timers, delay := max 0 (expiresAt - now) }
      timers := state.timers + 1 }

/-- An entry wiped and forgotten, its generation too unless a load of the key is in flight. -/
def dropEntry (cacheKey : String) (entry : UserKeyCacheEntry) : State :=
  let wiped := state.fill entry.key
  { wiped with
    entries := wiped.entries.delete cacheKey
    generations :=
      if (wiped.inflight.get cacheKey).isNone then wiped.generations.delete cacheKey
      else wiped.generations }

/-- One turn of the loop of `enforceCapacity`: the entry that is first in the map goes. -/
def dropOldest : State :=
  match state.entries.entries.head? with
  | none => state
  | some oldest => state.dropEntry oldest.1 oldest.2

def enforceCapacity (capacity : Nat) : State :=
  Nat.iterate dropOldest (state.entries.entries.length - capacity) state

def expireEntries (now : Int) : State :=
  (state.entries.entries.filter fun entry => entry.2.expiresAt ≤ now).foldl
    (fun state entry => state.dropEntry entry.1 entry.2) state

/-- What is left of a load goes once it has settled and nobody waits for it any more. -/
def cleanupLoad (cacheKey : String) (flight : Nat) : State :=
  match state.flights flight with
  | none => state
  | some load =>
    if !load.settled || load.waiters ≠ 0 then state
    else
      let emptied := (state.wipe load.source).setFlight flight { load with source := none }
      let detached := { emptied with
        inflight :=
          if emptied.inflight.get cacheKey = some flight then emptied.inflight.delete cacheKey
          else emptied.inflight }
      { detached with
        generations :=
          if (detached.entries.get cacheKey).isNone && (detached.inflight.get cacheKey).isNone then
            detached.generations.delete cacheKey
          else detached.generations }

def evict (cacheKey : String) (now : Int) : State :=
  let flight := state.inflight.get cacheKey
  let raised := { state with
    generations := state.generations.set cacheKey (state.generation cacheKey + 1) }
  let wiped := raised.wipe ((raised.entries.get cacheKey).map UserKeyCacheEntry.key)
  let emptied := { wiped with entries := wiped.entries.delete cacheKey }
  let scheduled := emptied.rescheduleExpiry now
  let detached := { scheduled with inflight := scheduled.inflight.delete cacheKey }
  { detached with
    generations :=
      if flight.isNone then detached.generations.delete cacheKey else detached.generations }

/-- The first loop of `clear`: the generations rise and the entries are wiped. -/
def clearEntries : State :=
  let wiped := state.entries.entries.foldl (fun state entry =>
    { state with
      generations := state.generations.set entry.1 (state.generation entry.1 + 1) }.fill
        entry.2.key) state
  { wiped with entries := .empty }

/-- The second loop of `clear`: no load can be joined any more. -/
def clearInflight : State :=
  state.inflight.entries.foldl (fun state load =>
    { state with
      generations := state.generations.set load.1 (state.generation load.1 + 1)
      inflight := state.inflight.delete load.1 }.cleanupLoad load.1 load.2) state

def clear : State :=
  let cleared := state.clearEntries.clearInflight.clearExpiryTimer
  { cleared with
    generations :=
      if cleared.inflight.entries.length = 0 then .empty else cleared.generations }

def startLoad (cacheKey : String) : State × Nat :=
  let flight := state.nextFlight
  ({ state.setFlight flight { cacheKey, generation := state.generation cacheKey } with
      nextFlight := state.nextFlight + 1
      inflight := state.inflight.set cacheKey flight },
    flight)

/-- The load that a caller awaits: the one in flight for its key, or one that it starts. -/
def joinLoad (cacheKey : String) : State × Nat :=
  match state.inflight.get cacheKey with
  | some flight => (state, flight)
  | none => state.startLoad cacheKey

def awaitLoad (cacheKey : String) : State :=
  let (joined, flight) := state.joinLoad cacheKey
  let counted := match joined.flights flight with
    | none => joined
    | some load => joined.setFlight flight { load with waiters := load.waiters + 1 }
  { counted.setCall counted.nextCall (.waiting cacheKey flight) with
    nextCall := counted.nextCall + 1 }

/-- A call served by an entry, which becomes the youngest of the map. -/
def serve (cacheKey : String) (entry : UserKeyCacheEntry) (now : Int) : State :=
  let touched := { state with
    entries := (state.entries.delete cacheKey).set cacheKey entry }
  let copied := touched.make (.call touched.nextCall) cacheKey now (touched.bytesOf entry.key)
  { copied.setCall copied.nextCall (.running cacheKey touched.nextBuffer) with
    nextCall := copied.nextCall + 1 }

/-- `withKey` up to its first `await`. -/
def loadWorkingCopy (cacheKey : String) (now : Int) : State :=
  match state.entries.get cacheKey with
  | none => state.awaitLoad cacheKey
  | some entry =>
    if now < entry.expiresAt then state.serve cacheKey entry now
    else (state.evict cacheKey now).awaitLoad cacheKey

end State

/-- What a loader comes to: a buffer of some length, or anything else. -/
inductive LoaderResult where
  | buffer (bytes : List UInt8)
  | failed
deriving DecidableEq

namespace State

variable (options : UserKeyCacheOptions) (state : State)

/-- A copy of what was loaded becomes an entry, if the load is still the one of its key. -/
def populate (flight : Nat) (load : InflightUserKeyLoad) (source : Nat) (now : Int) : State :=
  if load.generation = state.generation load.cacheKey
      ∧ state.inflight.get load.cacheKey = some flight then
    let copied := state.make (.entry load.cacheKey) load.cacheKey now (state.bytesOf source)
    let stored := { copied with
      entries := copied.entries.set load.cacheKey
        { key := state.nextBuffer, expiresAt := now + options.ttlMs } }
    (stored.enforceCapacity options.capacity).rescheduleExpiry now
  else state

/-- The body of a load behind `await loader()`. -/
def loaderReturns (flight : Nat) (load : InflightUserKeyLoad) (result : LoaderResult)
    (now : Int) : State :=
  match result with
  | .failed => state.setFlight flight { load with promise := .rejected }
  | .buffer bytes =>
    let source := state.nextBuffer
    let given := state.make (.load flight) load.cacheKey now bytes
    if bytes.length ≠ USER_KEY_LENGTH then
      (given.fill source).setFlight flight { load with promise := .rejected }
    else
      (given.setFlight flight { load with
        promise := .fulfilled source, source := some source }).populate options flight load source
          now

/-- What a caller gets from the promise that it awaited: a copy, or the error. -/
def receive (call : Nat) (cacheKey : String) (promise : LoadPromise) (now : Int) : State :=
  match promise with
  | .fulfilled source =>
    (state.make (.call call) cacheKey now (state.bytesOf source)).setCall call
      (.running cacheKey state.nextBuffer)
  | _ => state.setCall call .finished

/-- A caller behind `await flight.promise`. -/
def resume (call : Nat) (cacheKey : String) (flight : Nat) (load : InflightUserKeyLoad)
    (now : Int) : State :=
  let resumed := state.receive call cacheKey load.promise now
  (resumed.setFlight flight { load with waiters := load.waiters - 1 }).cleanupLoad cacheKey flight

def timerFires (id : Nat) (now : Int) : State :=
  if state.expiryTimer.map ExpiryTimer.id = some id then
    ({ state with expiryTimer := none }.expireEntries now).rescheduleExpiry now
  else state

end State

/-- What may come next: a call of `withKey`, the end of a loader, the `finally` behind a load, a
caller that goes on, the end of an operation, an invalidation, or a timer. -/
inductive Event where
  | withKey (cacheKey : String)
  | loaderReturns (flight : Nat) (result : LoaderResult)
  | settles (flight : Nat)
  | resumes (call : Nat)
  | finishes (call : Nat)
  | evict (cacheKey : String)
  | clear
  | timerFires (id : Nat)
deriving DecidableEq

structure Action where
  event : Event
  now : Int

def next (options : UserKeyCacheOptions) (state : State) (action : Action) : Option State :=
  match action.event with
  | .withKey cacheKey => some (state.loadWorkingCopy cacheKey action.now)
  | .loaderReturns flight result =>
    match state.flights flight with
    | none => none
    | some load =>
      if load.promise = .pending then
        some (state.loaderReturns options flight load result action.now)
      else none
  | .settles flight =>
    match state.flights flight with
    | none => none
    | some load =>
      if load.promise ≠ .pending ∧ load.settled = false then
        some ((state.setFlight flight { load with settled := true }).cleanupLoad
          load.cacheKey flight)
      else none
  | .resumes call =>
    match state.calls call with
    | .waiting cacheKey flight =>
      match state.flights flight with
      | none => none
      | some load =>
        if load.settled then some (state.resume call cacheKey flight load action.now) else none
    | _ => none
  | .finishes call =>
    match state.calls call with
    | .running _ workingKey => some ((state.fill workingKey).setCall call .finished)
    | _ => none
  | .evict cacheKey => some (state.evict cacheKey action.now)
  | .clear => some state.clear
  | .timerFires id =>
    if id < state.timers then some (state.timerFires id action.now) else none

end Toard.Keys
