/-
**Loads and the calls that wait for them.**
-/

import Toard.Keys.Buffers
import Mathlib.Data.Finset.Card

namespace Toard.Keys

open Toard.Library (OrderedMap)

def Call.awaits : Call → Option Nat
  | .waiting _ flight => some flight
  | _ => none

def callers (state : State) (flight : Nat) : Finset Nat :=
  (Finset.range state.nextCall).filter fun call => (state.calls call).awaits = some flight

def InflightUserKeyLoad.Over (load : InflightUserKeyLoad) : Prop :=
  load.settled = true ∧ load.waiters = 0

instance (load : InflightUserKeyLoad) : Decidable load.Over :=
  inferInstanceAs (Decidable (_ ∧ _))

def InflightUserKeyLoad.Stage (load : InflightUserKeyLoad) : Prop :=
  match load.promise with
  | .pending => load.settled = false ∧ load.source = none
  | .fulfilled source => load.source = some source ∨ (load.Over ∧ load.source = none)
  | .rejected => load.source = none

structure Loads (state : State) : Prop where
  unmadeFlights : ∀ flight, state.nextFlight ≤ flight → state.flights flight = none
  unmadeCalls : ∀ call, state.nextCall ≤ call → state.calls call = .unmade
  waiters : ∀ flight load, state.flights flight = some load →
    load.waiters = (callers state flight).card
  awaited : ∀ call cacheKey flight, state.calls call = .waiting cacheKey flight →
    ∃ load, state.flights flight = some load ∧ load.cacheKey = cacheKey
  joinable : ∀ cacheKey flight, state.inflight.get cacheKey = some flight →
    ∃ load, state.flights flight = some load ∧ load.cacheKey = cacheKey
  alone : ∀ cacheKey flight load, state.inflight.get cacheKey = some flight →
    state.flights flight = some load → load.promise = .pending → state.entries.get cacheKey = none
  stage : ∀ flight load, state.flights flight = some load → load.Stage

/-- Nothing is left of the loads that are over, `moved` apart. -/
def Clean (moved : Set Nat) (state : State) : Prop :=
  ∀ flight load, state.flights flight = some load → flight ∉ moved → load.Over →
    load.source = none ∧ ∀ cacheKey, state.inflight.get cacheKey ≠ some flight

/-- Entries and loads were taken out of the maps, and nothing else happened to the loads. -/
structure Shrinks (before after : State) : Prop where
  flights : after.flights = before.flights
  nextFlight : after.nextFlight = before.nextFlight
  calls : after.calls = before.calls
  nextCall : after.nextCall = before.nextCall
  inflight : ∀ cacheKey flight, after.inflight.get cacheKey = some flight →
    before.inflight.get cacheKey = some flight
  entries : ∀ cacheKey entry, after.entries.get cacheKey = some entry →
    before.entries.get cacheKey = some entry

theorem Shrinks.refl (state : State) : Shrinks state state :=
  ⟨rfl, rfl, rfl, rfl, fun _ _ => id, fun _ _ => id⟩

theorem Shrinks.trans {first middle last : State} (start : Shrinks first middle)
    (rest : Shrinks middle last) : Shrinks first last where
  flights := rest.flights.trans start.flights
  nextFlight := rest.nextFlight.trans start.nextFlight
  calls := rest.calls.trans start.calls
  nextCall := rest.nextCall.trans start.nextCall
  inflight cacheKey flight found := start.inflight _ _ (rest.inflight cacheKey flight found)
  entries cacheKey entry found := start.entries _ _ (rest.entries cacheKey entry found)

namespace Loads

variable {state after : State}

theorem mem_callers (loads : Loads state) (call flight : Nat) :
    call ∈ callers state flight ↔ (state.calls call).awaits = some flight := by
  unfold callers
  rw [Finset.mem_filter, Finset.mem_range, and_iff_right_iff_imp]
  intro awaits
  by_contra beyond
  rw [loads.unmadeCalls call (by omega)] at awaits
  cases awaits

theorem waiters_pos (loads : Loads state) {call flight : Nat} {cacheKey : String}
    {load : InflightUserKeyLoad} (waits : state.calls call = .waiting cacheKey flight)
    (found : state.flights flight = some load) : load.waiters ≠ 0 := by
  rw [loads.waiters flight load found]
  refine Finset.card_ne_zero_of_mem (a := call) ((loads.mem_callers call flight).mpr ?_)
  rw [waits]
  rfl

theorem exists_waiting (loads : Loads state) {flight : Nat} {load : InflightUserKeyLoad}
    (found : state.flights flight = some load) (counted : load.waiters ≠ 0) :
    ∃ call cacheKey, state.calls call = .waiting cacheKey flight := by
  rw [loads.waiters flight load found] at counted
  obtain ⟨call, among⟩ := Finset.card_ne_zero.mp counted
  have awaits := (loads.mem_callers call flight).mp among
  cases made : state.calls call with
  | waiting cacheKey other =>
    rw [made] at awaits
    cases awaits
    exact ⟨call, cacheKey, made⟩
  | unmade => rw [made] at awaits; cases awaits
  | running _ _ => rw [made] at awaits; cases awaits
  | finished => rw [made] at awaits; cases awaits

theorem shrinks (loads : Loads state) (less : Shrinks state after) : Loads after where
  unmadeFlights flight beyond := by
    rw [less.flights]
    exact loads.unmadeFlights flight (less.nextFlight ▸ beyond)
  unmadeCalls call beyond := by
    rw [less.calls]
    exact loads.unmadeCalls call (less.nextCall ▸ beyond)
  waiters flight load found := by
    rw [less.flights] at found
    have same : callers after flight = callers state flight := by
      unfold callers
      rw [less.calls, less.nextCall]
    rw [same]
    exact loads.waiters flight load found
  awaited call cacheKey flight waits := by
    rw [less.calls] at waits
    rw [less.flights]
    exact loads.awaited call cacheKey flight waits
  joinable cacheKey flight found := by
    rw [less.flights]
    exact loads.joinable cacheKey flight (less.inflight _ _ found)
  alone cacheKey flight load found loaded pending := by
    rw [less.flights] at loaded
    have none := loads.alone cacheKey flight load (less.inflight _ _ found) loaded pending
    refine Option.eq_none_iff_forall_not_mem.mpr fun entry present => ?_
    have before := less.entries cacheKey entry present
    rw [none] at before
    cases before
  stage flight load found := by
    rw [less.flights] at found
    exact loads.stage flight load found

theorem change (loads : Loads state) {flight : Nat} {load : InflightUserKeyLoad}
    (changed : InflightUserKeyLoad) (found : state.flights flight = some load)
    (flights : after.flights = Function.update state.flights flight (some changed))
    (nextFlight : after.nextFlight = state.nextFlight)
    (inflight : after.inflight = state.inflight)
    (entries : after.entries = state.entries)
    (unmade : ∀ call, after.nextCall ≤ call → after.calls call = .unmade)
    (awaited : ∀ call cacheKey other, after.calls call = .waiting cacheKey other →
      state.calls call = .waiting cacheKey other ∨ (cacheKey = load.cacheKey ∧ other = flight))
    (others : ∀ other, other ≠ flight → callers after other = callers state other)
    (counted : changed.waiters = (callers after flight).card)
    (cacheKey : changed.cacheKey = load.cacheKey)
    (pending : changed.promise = .pending → load.promise = .pending)
    (stage : changed.Stage) : Loads after where
  unmadeFlights other beyond := by
    rw [flights, Function.update_apply, if_neg]
    · exact loads.unmadeFlights other (nextFlight ▸ beyond)
    · rintro rfl
      rw [loads.unmadeFlights other (nextFlight ▸ beyond)] at found
      cases found
  unmadeCalls := unmade
  waiters other record loaded := by
    rw [flights, Function.update_apply] at loaded
    split at loaded
    case isTrue here =>
      cases loaded
      rw [here]
      exact counted
    case isFalse here =>
      rw [others other here]
      exact loads.waiters other record loaded
  awaited call key other waits := by
    rw [flights, Function.update_apply]
    rcases awaited call key other waits with before | ⟨rfl, rfl⟩
    · obtain ⟨record, loaded, keyed⟩ := loads.awaited call key other before
      split
      case isTrue here =>
        subst here
        rw [found, Option.some_inj] at loaded
        subst loaded
        exact ⟨changed, rfl, cacheKey.trans keyed⟩
      case isFalse => exact ⟨record, loaded, keyed⟩
    · exact ⟨changed, if_pos rfl, cacheKey⟩
  joinable key other joined := by
    rw [inflight] at joined
    obtain ⟨record, loaded, keyed⟩ := loads.joinable key other joined
    rw [flights, Function.update_apply]
    split
    case isTrue here =>
      subst here
      rw [found, Option.some_inj] at loaded
      subst loaded
      exact ⟨changed, rfl, cacheKey.trans keyed⟩
    case isFalse => exact ⟨record, loaded, keyed⟩
  alone key other record joined loaded waits := by
    rw [inflight] at joined
    rw [flights, Function.update_apply] at loaded
    rw [entries]
    split at loaded
    case isTrue here =>
      subst here
      cases loaded
      exact loads.alone key other load joined found (pending waits)
    case isFalse => exact loads.alone key other record joined loaded waits
  stage other record loaded := by
    rw [flights, Function.update_apply] at loaded
    split at loaded
    case isTrue =>
      cases loaded
      exact stage
    case isFalse => exact loads.stage other record loaded

theorem setFlight (loads : Loads state) {flight : Nat} {load changed : InflightUserKeyLoad}
    (found : state.flights flight = some load) (counted : changed.waiters = load.waiters)
    (cacheKey : changed.cacheKey = load.cacheKey)
    (pending : changed.promise = .pending → load.promise = .pending)
    (stage : changed.Stage) : Loads (state.setFlight flight changed) :=
  loads.change changed found rfl rfl rfl rfl loads.unmadeCalls (fun _ _ _ => .inl) (fun _ _ => rfl)
    (counted.trans (loads.waiters flight load found)) cacheKey pending stage

theorem setCall (loads : Loads state) {call : Nat} {made : Call} (known : call < state.nextCall)
    (before : (state.calls call).awaits = none) (now : made.awaits = none) :
    Loads (state.setCall call made) := by
  have other : ∀ flight, callers (state.setCall call made) flight = callers state flight := by
    intro flight
    refine Finset.filter_congr fun also _ => ?_
    show (Function.update state.calls call made also).awaits = _ ↔ _
    rw [Function.update_apply]
    split
    case isTrue here => rw [here, now, before]
    case isFalse => rfl
  refine { loads with
    unmadeCalls := ?unmade
    waiters := fun flight load found => (loads.waiters flight load found).trans
      (congrArg Finset.card (other flight).symm)
    awaited := ?awaited }
  case unmade =>
    intro also beyond
    show Function.update state.calls call made also = _
    rw [Function.update_apply, if_neg]
    · exact loads.unmadeCalls also beyond
    · rintro rfl
      exact absurd known (Nat.not_lt.mpr beyond)
  case awaited =>
    intro also cacheKey flight waits
    replace waits : Function.update state.calls call made also = _ := waits
    rw [Function.update_apply] at waits
    split at waits
    case isTrue =>
      rw [waits] at now
      cases now
    case isFalse => exact loads.awaited also cacheKey flight waits

theorem addCall (loads : Loads state) {made : Call} (free : made.awaits = none)
    (calls : after.calls = Function.update state.calls state.nextCall made)
    (nextCall : after.nextCall = state.nextCall + 1) (flights : after.flights = state.flights)
    (nextFlight : after.nextFlight = state.nextFlight) (inflight : after.inflight = state.inflight)
    (entries : ∀ cacheKey, after.entries.get cacheKey = state.entries.get cacheKey) :
    Loads after := by
  have apply_of_lt : ∀ also, also ≠ state.nextCall → after.calls also = state.calls also := by
    intro also differs
    rw [calls, Function.update_apply, if_neg differs]
  have other : ∀ flight, callers after flight = callers state flight := by
    intro flight
    unfold callers
    rw [nextCall, Finset.range_add_one, Finset.filter_insert, if_neg]
    · refine Finset.filter_congr fun also among => ?_
      rw [apply_of_lt also (Nat.ne_of_lt (Finset.mem_range.mp among))]
    · rw [calls, Function.update_self, free]
      exact Option.some_ne_none _ ∘ Eq.symm
  constructor
  case unmadeFlights =>
    rw [flights, nextFlight]
    exact loads.unmadeFlights
  case unmadeCalls =>
    intro also beyond
    rw [apply_of_lt also (by omega)]
    exact loads.unmadeCalls also (by omega)
  case waiters =>
    intro flight load found
    rw [flights] at found
    rw [other flight]
    exact loads.waiters flight load found
  case awaited =>
    intro also cacheKey flight waits
    rw [calls, Function.update_apply] at waits
    rw [flights]
    split at waits
    case isTrue =>
      rw [waits] at free
      cases free
    case isFalse => exact loads.awaited also cacheKey flight waits
  case joinable =>
    rw [flights, inflight]
    exact loads.joinable
  case alone =>
    intro cacheKey flight load found loaded pending
    rw [inflight] at found
    rw [flights] at loaded
    rw [entries]
    exact loads.alone cacheKey flight load found loaded pending
  case stage =>
    rw [flights]
    exact loads.stage

theorem addWaiter (loads : Loads state) {cacheKey : String} {flight : Nat}
    {load : InflightUserKeyLoad} (found : state.flights flight = some load)
    (keyed : load.cacheKey = cacheKey) (running : ¬ load.Over) :
    Loads { (state.setFlight flight { load with waiters := load.waiters + 1 }).setCall
      state.nextCall (.waiting cacheKey flight) with nextCall := state.nextCall + 1 } := by
  have calls_apply : ∀ also, also ≠ state.nextCall →
      Function.update state.calls state.nextCall (.waiting cacheKey flight) also
        = state.calls also := fun also differs => by
    rw [Function.update_apply, if_neg differs]
  have among : ∀ other call, call ∈ Finset.range state.nextCall →
      ((Function.update state.calls state.nextCall (.waiting cacheKey flight) call).awaits
          = some other ↔ (state.calls call).awaits = some other) := by
    intro other call within
    rw [calls_apply call (Nat.ne_of_lt (Finset.mem_range.mp within))]
  refine loads.change { load with waiters := load.waiters + 1 } found
    rfl rfl rfl rfl ?unmade ?awaited ?others ?counted rfl id ?stage
  case unmade =>
    intro call beyond
    replace beyond : state.nextCall + 1 ≤ call := beyond
    exact (calls_apply call (by omega)).trans (loads.unmadeCalls call (by omega))
  case awaited =>
    intro call key other waits
    by_cases last : call = state.nextCall
    · subst last
      obtain ⟨rfl, rfl⟩ := Call.waiting.inj ((Function.update_self _ _ _).symm.trans waits)
      exact .inr ⟨keyed.symm, rfl⟩
    · exact .inl ((calls_apply call last).symm.trans waits)
  case others =>
    intro other differs
    show Finset.filter _ (Finset.range (state.nextCall + 1)) = _
    rw [Finset.range_add_one, Finset.filter_insert, if_neg]
    · exact Finset.filter_congr (among other)
    · show ¬ (Function.update state.calls state.nextCall _ state.nextCall).awaits = _
      rw [Function.update_self]
      exact fun same => differs (Option.some_inj.mp same).symm
  case counted =>
    have inserted : callers { (state.setFlight flight
        { load with waiters := load.waiters + 1 }).setCall state.nextCall
          (.waiting cacheKey flight) with nextCall := state.nextCall + 1 } flight
        = insert state.nextCall (callers state flight) := by
      show Finset.filter _ (Finset.range (state.nextCall + 1)) = _
      rw [Finset.range_add_one, Finset.filter_insert, if_pos]
      · exact congrArg (insert state.nextCall) (Finset.filter_congr (among flight))
      · show (Function.update state.calls state.nextCall _ state.nextCall).awaits = _
        rw [Function.update_self]
        rfl
    rw [inserted, Finset.card_insert_of_notMem, ← loads.waiters flight load found]
    exact fun counted => Finset.notMem_range_self (Finset.mem_filter.mp counted).1
  case stage =>
    have stage := loads.stage flight load found
    unfold InflightUserKeyLoad.Stage at stage ⊢
    cases promise : load.promise with
    | pending =>
      rw [promise] at stage
      exact stage
    | fulfilled source =>
      rw [promise] at stage
      exact .inl (stage.resolve_right fun isOver => running isOver.1)
    | rejected =>
      rw [promise] at stage
      exact stage

theorem leave (loads : Loads state) {call flight : Nat} {cacheKey : String}
    {load : InflightUserKeyLoad} (waits : state.calls call = .waiting cacheKey flight)
    (found : state.flights flight = some load) {made : Call} (free : made.awaits = none) :
    Loads ((state.setCall call made).setFlight flight
      { load with waiters := load.waiters - 1 }) := by
  have known : call ∈ callers state flight := by
    rw [loads.mem_callers, waits]
    rfl
  refine loads.change { load with waiters := load.waiters - 1 } found
    rfl rfl rfl rfl ?unmade ?awaited ?others ?counted rfl id ?stage
  case unmade =>
    intro also beyond
    show Function.update state.calls call made also = _
    rw [Function.update_apply, if_neg]
    · exact loads.unmadeCalls also beyond
    · rintro rfl
      exact absurd (Finset.mem_range.mp (Finset.mem_filter.mp known).1) (Nat.not_lt.mpr beyond)
  case awaited =>
    intro also key other waiting
    replace waiting : Function.update state.calls call made also = _ := waiting
    rw [Function.update_apply] at waiting
    split at waiting
    case isTrue =>
      rw [waiting] at free
      cases free
    case isFalse => exact .inl waiting
  case others =>
    intro other differs
    refine Finset.filter_congr fun also _ => ?_
    show (Function.update state.calls call made also).awaits = _ ↔ _
    rw [Function.update_apply]
    split
    case isTrue here =>
      rw [here, free, waits]
      exact ⟨nofun, fun same => absurd (Option.some_inj.mp same).symm differs⟩
    case isFalse => rfl
  case counted =>
    have erased : callers ((state.setCall call made).setFlight flight
        { load with waiters := load.waiters - 1 }) flight = (callers state flight).erase call := by
      ext also
      rw [Finset.mem_erase]
      unfold callers
      rw [Finset.mem_filter, Finset.mem_filter]
      show also ∈ Finset.range state.nextCall
        ∧ (Function.update state.calls call made also).awaits = _ ↔ _
      rw [Function.update_apply]
      split
      case isTrue here =>
        rw [free]
        exact ⟨fun both => absurd both.2 (Option.some_ne_none _).symm,
        fun both => absurd here both.1⟩
      case isFalse here => exact ⟨fun both => ⟨here, both⟩, fun both => both.2⟩
    rw [erased, Finset.card_erase_of_mem known, ← loads.waiters flight load found]
  case stage =>
    have stage := loads.stage flight load found
    have counted := loads.waiters_pos waits found
    unfold InflightUserKeyLoad.Stage at stage ⊢
    cases promise : load.promise with
    | pending =>
      rw [promise] at stage
      exact stage
    | fulfilled source =>
      rw [promise] at stage
      exact .inl (stage.resolve_right fun isOver => counted isOver.1.2)
    | rejected =>
      rw [promise] at stage
      exact stage

theorem startLoad (loads : Loads state) {cacheKey : String}
    (empty : state.entries.get cacheKey = none) : Loads (state.startLoad cacheKey).1 := by
  have older : ∀ flight load, state.flights flight = some load → flight ≠ state.nextFlight := by
    rintro flight load found rfl
    rw [loads.unmadeFlights _ (le_refl _)] at found
    cases found
  have unwaited : callers state state.nextFlight = ∅ := by
    refine Finset.eq_empty_iff_forall_notMem.mpr fun call among => ?_
    have awaits := (loads.mem_callers call _).mp among
    cases made : state.calls call with
    | waiting key flight =>
      rw [made] at awaits
      cases awaits
      obtain ⟨load, found, _⟩ := loads.awaited call key _ made
      exact older _ load found rfl
    | unmade => rw [made] at awaits; cases awaits
    | running _ _ => rw [made] at awaits; cases awaits
    | finished => rw [made] at awaits; cases awaits
  have flights_apply : ∀ flight load, state.flights flight = some load →
      (state.startLoad cacheKey).1.flights flight = some load := fun flight load found => by
    show Function.update state.flights _ _ flight = _
    rw [Function.update_apply, if_neg (older flight load found), found]
  have of_flights : ∀ flight load, (state.startLoad cacheKey).1.flights flight = some load →
      (flight = state.nextFlight ∧ load =
        { cacheKey, generation := state.generation cacheKey }) ∨
      state.flights flight = some load := by
    intro flight load found
    replace found : Function.update state.flights _ _ flight = _ := found
    rw [Function.update_apply] at found
    split at found
    case isTrue here => exact .inl ⟨here, (Option.some_inj.mp found).symm⟩
    case isFalse => exact .inr found
  constructor
  case unmadeFlights =>
    intro flight beyond
    replace beyond : state.nextFlight + 1 ≤ flight := beyond
    show Function.update state.flights _ _ flight = _
    rw [Function.update_apply, if_neg (by omega)]
    exact loads.unmadeFlights flight (by omega)
  case unmadeCalls => exact loads.unmadeCalls
  case waiters =>
    intro flight load found
    rcases of_flights flight load found with ⟨rfl, rfl⟩ | before
    · exact (congrArg Finset.card unwaited).symm
    · exact loads.waiters flight load before
  case awaited =>
    intro call key flight waits
    obtain ⟨load, found, keyed⟩ := loads.awaited call key flight waits
    exact ⟨load, flights_apply flight load found, keyed⟩
  case joinable =>
    intro key flight joined
    replace joined := (OrderedMap.get_set _ _ _ _).symm.trans joined
    split at joined
    case isTrue here =>
      cases joined
      exact ⟨_, Function.update_self _ _ _, here.symm⟩
    case isFalse =>
      obtain ⟨load, found, keyed⟩ := loads.joinable key flight joined
      exact ⟨load, flights_apply flight load found, keyed⟩
  case alone =>
    intro key flight load joined found pending
    replace joined := (OrderedMap.get_set _ _ _ _).symm.trans joined
    split at joined
    case isTrue here =>
      subst here
      exact empty
    case isFalse =>
      rcases of_flights flight load found with ⟨rfl, rfl⟩ | before
      · obtain ⟨load, found, _⟩ := loads.joinable key _ joined
        exact absurd rfl (older _ load found)
      · exact loads.alone key flight load joined before pending
  case stage =>
    intro flight load found
    rcases of_flights flight load found with ⟨rfl, rfl⟩ | before
    · exact ⟨rfl, rfl⟩
    · exact loads.stage flight load before

end Loads

end Toard.Keys
