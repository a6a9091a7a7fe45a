/-
**Each step of the user key cache keeps its invariant.**

* **`Sound.next`**: the invariant and the capacity over any step.
-/

import Toard.Keys.Upkeep

namespace Toard.Keys

open Toard.Library (OrderedMap)

variable {options : UserKeyCacheOptions} {state after : State} {moved : Set Nat}

theorem dated_make {wiped : Set Owner} (accounted : Accounted wiped state)
    {entry : UserKeyCacheEntry}
    (dated : ∃ cell, state.buffers entry.key = some cell ∧
      entry.expiresAt = cell.madeAt + options.ttlMs)
    (owner : Owner) (key : String) (now : Int) (bytes : List UInt8) :
    ∃ cell, (state.make owner key now bytes).buffers entry.key = some cell ∧
      entry.expiresAt = cell.madeAt + options.ttlMs := by
  obtain ⟨cell, found, date⟩ := dated
  refine ⟨cell, ?_, date⟩
  rw [make_apply, if_neg, found]
  intro here
  rw [accounted.unmade _ (Nat.le_of_eq here.symm)] at found
  cases found

theorem get_touch {cacheKey : String} {entry : UserKeyCacheEntry}
    {entries : OrderedMap String UserKeyCacheEntry} (found : entries.get cacheKey = some entry)
    (key : String) : ((entries.delete cacheKey).set cacheKey entry).get key = entries.get key := by
  rw [OrderedMap.get_set]
  split
  case isTrue here => rw [here, found]
  case isFalse differs => rw [OrderedMap.get_delete, if_neg differs]

theorem length_touch {cacheKey : String} {entry : UserKeyCacheEntry}
    {entries : OrderedMap String UserKeyCacheEntry} (found : entries.get cacheKey = some entry) :
    ((entries.delete cacheKey).set cacheKey entry).entries.length ≤ entries.entries.length := by
  have shorter : (entries.delete cacheKey).entries.length < entries.entries.length := by
    refine List.length_filter_lt_length_iff_exists.mpr
      ⟨(cacheKey, entry), OrderedMap.get_eq_some.mp found, ?_⟩
    simp
  have absent : cacheKey ∉ (entries.delete cacheKey).entries.map Prod.fst := by
    intro among
    obtain ⟨other, within, same⟩ := List.mem_map.mp among
    exact of_decide_eq_true (List.mem_filter.mp within).2 same
  show (OrderedMap.setEntries (entries.delete cacheKey).entries cacheKey entry).length ≤ _
  rw [OrderedMap.setEntries, if_neg absent, List.length_append, List.length_singleton]
  exact shorter

theorem Sound.serve (sound : Sound options ∅ state) {cacheKey : String}
    {entry : UserKeyCacheEntry} (found : state.entries.get cacheKey = some entry) (now : Int) :
    Sound options ∅ (state.serve cacheKey entry now) := by
  have holding : Holds state (.entry cacheKey) cacheKey entry.key := ⟨rfl, entry, found, rfl⟩
  have unmade := sound.loads.unmadeCalls state.nextCall (le_refl _)
  refine ⟨sound.accounted.adopt (.call state.nextCall) cacheKey now
    (state.bytesOf entry.key) rfl rfl
    ((sound.accounted.bytesOf_eq holding).make sound.accounted _ _ _ _) ?holds,
    sound.loads.addCall rfl rfl rfl rfl rfl rfl (get_touch found), sound.clean, ?dated⟩
  case holds =>
    intro owner key buffer
    cases owner with
    | load flight => exact (or_iff_left (by rintro ⟨⟨⟩, _⟩)).symm
    | entry owned =>
      refine Iff.trans ?_ (or_iff_left (by rintro ⟨⟨⟩, _⟩)).symm
      show (owned = key ∧ ∃ other, ((state.entries.delete cacheKey).set cacheKey entry).get key
        = some other ∧ _) ↔ _
      rw [get_touch found]
      rfl
    | call call =>
      show Function.update state.calls state.nextCall (.running cacheKey state.nextBuffer) call
        = .running key buffer ↔ state.calls call = .running key buffer ∨ _
      rw [Function.update_apply, Owner.call.injEq]
      split
      case isTrue here =>
        rw [here, unmade, Call.running.injEq]
        refine ⟨fun same => .inr ⟨rfl, same.1.symm, same.2.symm⟩, ?_⟩
        rintro (none | ⟨_, rfl, rfl⟩)
        · cases none
        · exact ⟨rfl, rfl⟩
      case isFalse differs => exact (or_iff_left fun both => differs both.1).symm
  case dated =>
    intro key other present
    replace present : ((state.entries.delete cacheKey).set cacheKey entry).get key = some other :=
      present
    rw [get_touch found] at present
    exact dated_make sound.accounted (sound.dated key other present) _ _ _ _

theorem holds_update {flight : Nat} {load : InflightUserKeyLoad} (changed : InflightUserKeyLoad)
    (found : state.flights flight = some load) (cacheKey : changed.cacheKey = load.cacheKey)
    (source : changed.source = load.source)
    (flights : after.flights = Function.update state.flights flight (some changed))
    (other : Nat) (key : String) (buffer : Nat) :
    Holds after (.load other) key buffer ↔ Holds state (.load other) key buffer := by
  show (∃ record, after.flights other = some record ∧ _)
    ↔ ∃ record, state.flights other = some record ∧ _
  rw [flights, Function.update_apply]
  split
  case isTrue here =>
    rw [here, found]
    constructor
    · rintro ⟨record, made, keyed, held⟩
      cases made
      exact ⟨load, rfl, cacheKey.symm.trans keyed, source.symm.trans held⟩
    · rintro ⟨record, made, keyed, held⟩
      cases made
      exact ⟨changed, rfl, cacheKey.trans keyed, source.trans held⟩
  case isFalse => rfl

theorem Sound.setFlight (sound : Sound options ∅ state) {flight : Nat}
    {load changed : InflightUserKeyLoad} (found : state.flights flight = some load)
    (cacheKey : changed.cacheKey = load.cacheKey) (waiters : changed.waiters = load.waiters)
    (source : changed.source = load.source)
    (pending : changed.promise = .pending → load.promise = .pending) (stage : changed.Stage)
    (isOver : changed.Over → flight ∈ moved) :
    Sound options moved (state.setFlight flight changed) where
  accounted := by
    refine sound.accounted.congr rfl rfl fun owner key buffer => ?_
    cases owner with
    | entry => rfl
    | call => rfl
    | load other => exact holds_update changed found cacheKey source rfl other key buffer
  loads := sound.loads.setFlight found waiters cacheKey pending stage
  clean := by
    intro other record loaded outside ended
    replace loaded : Function.update state.flights flight _ other = some record := loaded
    rw [Function.update_apply] at loaded
    split at loaded
    case isTrue here =>
      cases loaded
      exact absurd (isOver ended) (here ▸ outside)
    case isFalse => exact sound.clean other record loaded (Set.notMem_empty other) ended
  dated := sound.dated

theorem Sound.startLoad (sound : Sound options ∅ state) {cacheKey : String}
    (empty : state.entries.get cacheKey = none) :
    Sound options ∅ (state.startLoad cacheKey).1 := by
  refine ⟨sound.accounted.congr rfl rfl fun owner key buffer => ?holds,
    sound.loads.startLoad empty, ?clean, sound.dated⟩
  case holds =>
    cases owner with
    | entry => rfl
    | call => rfl
    | load other =>
      show (∃ record, Function.update state.flights state.nextFlight _ other = some record ∧ _)
        ↔ ∃ record, state.flights other = some record ∧ _
      rw [Function.update_apply]
      split
      case isTrue here =>
        rw [here, sound.loads.unmadeFlights _ (le_refl _)]
        constructor
        · rintro ⟨record, made, _, held⟩
          cases made
          cases held
        · rintro ⟨record, made, _⟩
          cases made
      case isFalse => rfl
  case clean =>
    intro other record loaded outside ended
    replace loaded : Function.update state.flights state.nextFlight _ other = some record := loaded
    rw [Function.update_apply] at loaded
    split at loaded
    case isTrue =>
      cases loaded
      cases ended.1
    case isFalse differs =>
      obtain ⟨without, gone⟩ := sound.clean other record loaded outside ended
      refine ⟨without, fun key joins => ?_⟩
      replace joins := (OrderedMap.get_set _ _ _ _).symm.trans joins
      split at joins
      case isTrue => exact differs (Option.some_inj.mp joins).symm
      case isFalse => exact gone key joins

theorem Sound.addWaiter (sound : Sound options ∅ state) {cacheKey : String} {flight : Nat}
    {load : InflightUserKeyLoad} (found : state.flights flight = some load)
    (keyed : load.cacheKey = cacheKey) (needed : ¬ load.Over) : Sound options ∅
      { (state.setFlight flight { load with waiters := load.waiters + 1 }).setCall
        state.nextCall (.waiting cacheKey flight) with nextCall := state.nextCall + 1 } := by
  have unmade := sound.loads.unmadeCalls state.nextCall (le_refl _)
  refine ⟨sound.accounted.congr rfl rfl fun owner key buffer => ?holds,
    sound.loads.addWaiter found keyed needed, ?clean, sound.dated⟩
  case holds =>
    cases owner with
    | entry => rfl
    | call call =>
      show Function.update state.calls state.nextCall _ call = _ ↔ state.calls call = _
      rw [Function.update_apply]
      split
      case isTrue here =>
        rw [here, unmade]
        exact ⟨nofun, nofun⟩
      case isFalse => rfl
    | load other =>
      exact holds_update { load with waiters := load.waiters + 1 } found rfl rfl rfl other key
        buffer
  case clean =>
    intro other record loaded outside ended
    replace loaded : Function.update state.flights flight _ other = some record := loaded
    rw [Function.update_apply] at loaded
    split at loaded
    case isTrue =>
      cases loaded
      exact absurd ended.2 (Nat.succ_ne_zero _)
    case isFalse => exact sound.clean other record loaded outside ended

theorem awaitLoad_eq {cacheKey : String} {load : InflightUserKeyLoad}
    (found : (state.joinLoad cacheKey).1.flights (state.joinLoad cacheKey).2 = some load) :
    state.awaitLoad cacheKey =
      { ((state.joinLoad cacheKey).1.setFlight (state.joinLoad cacheKey).2
          { load with waiters := load.waiters + 1 }).setCall (state.joinLoad cacheKey).1.nextCall
          (.waiting cacheKey (state.joinLoad cacheKey).2) with
        nextCall := (state.joinLoad cacheKey).1.nextCall + 1 } := by
  unfold State.awaitLoad
  simp only [found]
  rfl

theorem joinLoad_spec (sound : Sound options ∅ state) {cacheKey : String}
    (empty : state.entries.get cacheKey = none) :
    Sound options ∅ (state.joinLoad cacheKey).1 ∧ ∃ load,
      (state.joinLoad cacheKey).1.flights (state.joinLoad cacheKey).2 = some load ∧
      load.cacheKey = cacheKey ∧ ¬ load.Over := by
  unfold State.joinLoad
  cases joined : state.inflight.get cacheKey with
  | some flight =>
    obtain ⟨load, found, keyed⟩ := sound.loads.joinable cacheKey flight joined
    exact ⟨sound, load, found, keyed, fun isOver =>
      (sound.clean flight load found (Set.notMem_empty _) isOver).2 cacheKey joined⟩
  | none =>
    exact ⟨sound.startLoad empty, _, Function.update_self _ _ _, rfl, fun isOver => nomatch isOver.1⟩

theorem Sound.awaitLoad (sound : Sound options ∅ state) {cacheKey : String}
    (empty : state.entries.get cacheKey = none) : Sound options ∅ (state.awaitLoad cacheKey) := by
  obtain ⟨joined, load, found, keyed, needed⟩ := joinLoad_spec sound empty
  rw [awaitLoad_eq found]
  exact joined.addWaiter found keyed needed

theorem Sound.populate (sound : Sound options ∅ state) {flight : Nat}
    {load changed : InflightUserKeyLoad} {source : Nat}
    (found : state.flights flight = some changed) (returned : changed.promise = .fulfilled source)
    (held : changed.source = some source) (keyed : changed.cacheKey = load.cacheKey)
    (empty : state.inflight.get load.cacheKey = some flight →
      state.entries.get load.cacheKey = none) (now : Int) :
    Sound options ∅ (state.populate options flight load source now) := by
  unfold State.populate
  split
  case isFalse => exact sound
  case isTrue current =>
    refine (Sound.enforceCapacity ?stored options.capacity).rescheduleExpiry now
    have none := empty current.2
    have holding : Holds state (.load flight) load.cacheKey source := ⟨changed, found, keyed, held⟩
    refine ⟨sound.accounted.adopt (.entry load.cacheKey) load.cacheKey now (state.bytesOf source)
      rfl rfl ((sound.accounted.bytesOf_eq holding).make sound.accounted _ _ _ _) ?holds,
      { sound.loads with alone := ?alone }, sound.clean, ?dated⟩
    case holds =>
      intro owner key buffer
      cases owner with
      | load other => exact (or_iff_left (by rintro ⟨⟨⟩, _⟩)).symm
      | call call => exact (or_iff_left (by rintro ⟨⟨⟩, _⟩)).symm
      | entry owned =>
        show (owned = key ∧ ∃ entry, (state.entries.set load.cacheKey
            { key := state.nextBuffer, expiresAt := now + options.ttlMs }).get key = some entry ∧ _)
          ↔ (owned = key ∧ ∃ entry, state.entries.get key = some entry ∧ _) ∨ _
        rw [OrderedMap.get_set, Owner.entry.injEq]
        split
        case isTrue here =>
          subst here
          rw [none]
          constructor
          · rintro ⟨rfl, entry, made, rfl⟩
            cases made
            exact .inr ⟨rfl, rfl, rfl⟩
          · rintro (⟨_, _, made, _⟩ | ⟨rfl, _, rfl⟩)
            · cases made
            · exact ⟨rfl, _, rfl, rfl⟩
        case isFalse differs => exact (or_iff_left fun new => differs new.2.1).symm
    case alone =>
      intro key other record joined loaded pending
      show (state.entries.set _ _).get key = _
      rw [OrderedMap.get_set]
      split
      case isTrue here =>
        subst here
        have same : flight = other := Option.some_inj.mp (current.2.symm.trans joined)
        subst same
        have record_eq : changed = record := Option.some_inj.mp (found.symm.trans loaded)
        rw [← record_eq, returned] at pending
        cases pending
      case isFalse => exact sound.loads.alone key other record joined loaded pending
    case dated =>
      intro key entry present
      replace present := (OrderedMap.get_set _ _ _ _).symm.trans present
      split at present
      case isTrue =>
        cases present
        exact ⟨_, Function.update_self _ _ _, rfl⟩
      case isFalse => exact dated_make sound.accounted (sound.dated key entry present) _ _ _ _

theorem Sound.give (sound : Sound options ∅ state) {flight : Nat} {load : InflightUserKeyLoad}
    (found : state.flights flight = some load) (without : load.source = none)
    (needed : ¬ load.Over) {bytes : List UInt8} (length : bytes.length = USER_KEY_LENGTH)
    (now : Int) :
    Sound options ∅ ((state.make (.load flight) load.cacheKey now bytes).setFlight flight
      { load with promise := .fulfilled state.nextBuffer, source := some state.nextBuffer }) := by
  have returned : Returned (state.make (.load flight) load.cacheKey now bytes) load.cacheKey
      bytes := ⟨length, flight, state.nextBuffer, _, Function.update_self _ _ _, rfl, rfl, rfl⟩
  refine ⟨sound.accounted.adopt (.load flight) load.cacheKey now bytes rfl rfl returned
    ?holds, ?loads, ?clean, fun key entry present =>
      dated_make sound.accounted (sound.dated key entry present) _ _ _ _⟩
  case holds =>
    intro owner key buffer
    cases owner with
    | entry owned => exact (or_iff_left (by rintro ⟨⟨⟩, _⟩)).symm
    | call call => exact (or_iff_left (by rintro ⟨⟨⟩, _⟩)).symm
    | load other =>
      show (∃ record, Function.update state.flights flight _ other = some record ∧ _)
        ↔ (∃ record, state.flights other = some record ∧ _) ∨ _
      rw [Function.update_apply, Owner.load.injEq]
      split
      case isTrue here =>
        rw [here, found]
        constructor
        · rintro ⟨record, made, rfl, source⟩
          cases made
          exact .inr ⟨rfl, rfl, (Option.some_inj.mp source).symm⟩
        · rintro (⟨record, made, _, source⟩ | ⟨_, rfl, rfl⟩)
          · cases made
            rw [without] at source
            cases source
          · exact ⟨_, rfl, rfl, rfl⟩
      case isFalse differs => exact (or_iff_left fun new => differs new.1).symm
  case loads =>
    have moved : Loads (state.setFlight flight { load with
        promise := .fulfilled state.nextBuffer, source := some state.nextBuffer }) :=
      sound.loads.setFlight found rfl rfl nofun (.inl rfl)
    exact moved.shrinks ⟨rfl, rfl, rfl, rfl, fun _ _ => id, fun _ _ => id⟩
  case clean =>
    intro other record loaded outside ended
    replace loaded : Function.update state.flights flight _ other = some record := loaded
    rw [Function.update_apply] at loaded
    split at loaded
    case isTrue =>
      cases loaded
      exact absurd ended needed
    case isFalse => exact sound.clean other record loaded outside ended

theorem Sound.loaderReturns (sound : Sound options ∅ state) {flight : Nat}
    {load : InflightUserKeyLoad} (found : state.flights flight = some load)
    (pending : load.promise = .pending) (result : LoaderResult) (now : Int) :
    Sound options ∅ (state.loaderReturns options flight load result now) := by
  have stage := sound.loads.stage flight load found
  unfold InflightUserKeyLoad.Stage at stage
  rw [pending] at stage
  obtain ⟨unsettled, without⟩ := stage
  have needed : ¬ load.Over := fun isOver => absurd (unsettled.symm.trans isOver.1) Bool.false_ne_true
  unfold State.loaderReturns
  split
  case h_1 =>
    exact sound.setFlight found rfl rfl rfl nofun without fun isOver => absurd isOver needed
  case h_2 bytes =>
    simp only []
    split
    case isTrue =>
      have discarded : Sound options ∅
          ((state.make (.load flight) load.cacheKey now bytes).fill state.nextBuffer) :=
        ⟨sound.accounted.discard _ _ _ _,
          sound.loads.shrinks ⟨rfl, rfl, rfl, rfl, fun _ _ => id, fun _ _ => id⟩, sound.clean,
          fun key entry present => dated_fill
            (dated_make sound.accounted (sound.dated key entry present) _ _ _ _) _⟩
      exact discarded.setFlight found rfl rfl rfl nofun without fun isOver => absurd isOver needed
    case isFalse length =>
      rw [not_not] at length
      exact (sound.give found without needed length now).populate (Function.update_self _ _ _)
        rfl rfl rfl (fun joined => sound.loads.alone _ flight load joined found pending) now

section Leaving

variable {call flight : Nat} {cacheKey : String} {load : InflightUserKeyLoad}

theorem Sound.clean_leave (sound : Sound options ∅ state) (call : Nat) (made : Call)
    (changed : InflightUserKeyLoad) :
    Clean {flight} ((state.setCall call made).setFlight flight changed) := by
  intro other record loaded outside ended
  rw [Set.mem_singleton_iff] at outside
  replace loaded : Function.update state.flights flight _ other = some record := loaded
  rw [Function.update_apply, if_neg outside] at loaded
  exact sound.clean other record loaded (Set.notMem_empty _) ended

theorem Sound.leave (sound : Sound options ∅ state)
    (waits : state.calls call = .waiting cacheKey flight)
    (found : state.flights flight = some load) :
    Sound options {flight} ((state.setCall call .finished).setFlight flight
      { load with waiters := load.waiters - 1 }) := by
  refine ⟨sound.accounted.congr rfl rfl fun owner key buffer => ?_,
    sound.loads.leave waits found rfl, sound.clean_leave call .finished _, sound.dated⟩
  cases owner with
  | entry => rfl
  | load other =>
    exact holds_update { load with waiters := load.waiters - 1 } found rfl rfl rfl other key buffer
  | call other =>
    show Function.update state.calls call .finished other = _ ↔ state.calls other = _
    rw [Function.update_apply]
    split
    case isTrue here =>
      rw [here, waits]
      exact ⟨nofun, nofun⟩
    case isFalse => rfl

theorem Sound.leaveWithCopy (sound : Sound options ∅ state) {source : Nat}
    (waits : state.calls call = .waiting cacheKey flight)
    (found : state.flights flight = some load)
    (holding : Holds state (.load flight) cacheKey source) (now : Int) :
    Sound options {flight} (((state.make (.call call) cacheKey now (state.bytesOf source)).setCall
      call (.running cacheKey state.nextBuffer)).setFlight flight
        { load with waiters := load.waiters - 1 }) := by
  refine ⟨sound.accounted.adopt (.call call) cacheKey now (state.bytesOf source) rfl rfl
    ((sound.accounted.bytesOf_eq holding).make sound.accounted _ _ _ _) ?holds, ?loads,
    sound.clean_leave call (.running cacheKey state.nextBuffer) _, fun key entry present =>
      dated_make sound.accounted (sound.dated key entry present) _ _ _ _⟩
  case holds =>
    intro owner key buffer
    cases owner with
    | entry owned => exact (or_iff_left (by rintro ⟨⟨⟩, _⟩)).symm
    | load other =>
      refine Iff.trans ?_ (or_iff_left (by rintro ⟨⟨⟩, _⟩)).symm
      exact holds_update { load with waiters := load.waiters - 1 } found rfl rfl rfl other key
        buffer
    | call other =>
      show Function.update state.calls call (.running cacheKey state.nextBuffer) other = _
        ↔ state.calls other = _ ∨ _
      rw [Function.update_apply, Owner.call.injEq]
      split
      case isTrue here =>
        rw [here, waits, Call.running.injEq]
        refine ⟨fun same => .inr ⟨rfl, same.1.symm, same.2.symm⟩, ?_⟩
        rintro (none | ⟨_, rfl, rfl⟩)
        · cases none
        · exact ⟨rfl, rfl⟩
      case isFalse differs => exact (or_iff_left fun both => differs both.1).symm
  case loads =>
    have left : Loads ((state.setCall call (.running cacheKey state.nextBuffer)).setFlight flight
      { load with waiters := load.waiters - 1 }) := sound.loads.leave waits found rfl
    exact left.shrinks ⟨rfl, rfl, rfl, rfl, fun _ _ => id, fun _ _ => id⟩

theorem Sound.resume (sound : Sound options ∅ state)
    (waits : state.calls call = .waiting cacheKey flight)
    (found : state.flights flight = some load) (now : Int) :
    Sound options ∅ (state.resume call cacheKey flight load now) := by
  obtain ⟨record, loaded, keyed⟩ := sound.loads.awaited call cacheKey flight waits
  rw [found, Option.some_inj] at loaded
  subst loaded
  subst keyed
  have left : Sound options {flight} ((state.receive call load.cacheKey load.promise now).setFlight
      flight { load with waiters := load.waiters - 1 }) := by
    have stage := sound.loads.stage flight load found
    unfold InflightUserKeyLoad.Stage at stage
    cases promise : load.promise with
    | pending =>
      have leaves := sound.leave waits found
      rw [promise] at leaves
      exact leaves
    | rejected =>
      have leaves := sound.leave waits found
      rw [promise] at leaves
      exact leaves
    | fulfilled source =>
      rw [promise] at stage
      have counted := sound.loads.waiters_pos waits found
      have held := stage.resolve_right fun isOver => counted isOver.1.2
      have leaves := sound.leaveWithCopy waits found ⟨load, found, rfl, held⟩ now
      rw [promise] at leaves
      exact leaves
  have there : ((state.receive call load.cacheKey load.promise now).setFlight flight
      { load with waiters := load.waiters - 1 }).flights flight
        = some { load with waiters := load.waiters - 1 } := Function.update_self _ _ _
  have cleaned := left.cleanupLoad there
  exact cleaned

end Leaving

theorem Sound.finish (sound : Sound options ∅ state) {call workingKey : Nat} {cacheKey : String}
    (runs : state.calls call = .running cacheKey workingKey) :
    Sound options ∅ ((state.fill workingKey).setCall call .finished) := by
  have holding : Holds state (.call call) cacheKey workingKey := runs
  have filled := sound.accounted.fill holding
  rw [insert_empty_eq] at filled
  have known : call < state.nextCall := by
    by_contra beyond
    rw [sound.loads.unmadeCalls call (by omega)] at runs
    cases runs
  have free : (state.calls call).awaits = none := by
    rw [runs]
    rfl
  refine ⟨filled.forget rfl rfl fun owner key buffer => ?_,
    (sound.loads.setCall known free rfl).shrinks
      ⟨rfl, rfl, rfl, rfl, fun _ _ => id, fun _ _ => id⟩,
    sound.clean, fun key entry present => dated_fill (sound.dated key entry present) _⟩
  rw [Set.mem_singleton_iff]
  cases owner with
  | entry => exact (and_iff_left (by rintro ⟨⟩)).symm
  | load => exact (and_iff_left (by rintro ⟨⟩)).symm
  | call other =>
    show Function.update state.calls call .finished other = _ ↔ state.calls other = _ ∧ _
    rw [Function.update_apply, Owner.call.injEq]
    split
    case isTrue here => exact ⟨nofun, fun both => absurd here both.2⟩
    case isFalse differs => exact (and_iff_left differs).symm

theorem wipe_entries (state : State) (buffer : Option Nat) :
    (state.wipe buffer).entries = state.entries := by
  cases buffer with
  | none => rfl
  | some buffer => rfl

theorem cleanupLoad_entries (state : State) (cacheKey : String) (flight : Nat) :
    (state.cleanupLoad cacheKey flight).entries = state.entries := by
  unfold State.cleanupLoad
  split
  case h_1 => rfl
  case h_2 load _ =>
    split
    case isTrue => rfl
    case isFalse => exact wipe_entries state load.source

theorem joinLoad_entries (state : State) (cacheKey : String) :
    (state.joinLoad cacheKey).1.entries = state.entries := by
  unfold State.joinLoad
  split
  case h_1 => rfl
  case h_2 => rfl

theorem awaitLoad_entries (state : State) (cacheKey : String) :
    (state.awaitLoad cacheKey).entries = state.entries := by
  rw [← joinLoad_entries state cacheKey]
  unfold State.awaitLoad
  simp only []
  split
  case h_1 => rfl
  case h_2 => rfl

theorem rescheduleExpiry_entries (state : State) (now : Int) :
    (state.rescheduleExpiry now).entries = state.entries := by
  obtain ⟨_, _, same⟩ := rescheduleExpiry_eq state now
  rw [same]

theorem receive_entries (state : State) (call : Nat) (cacheKey : String) (promise : LoadPromise)
    (now : Int) : (state.receive call cacheKey promise now).entries = state.entries := by
  cases promise with
  | fulfilled source => rfl
  | pending => rfl
  | rejected => rfl

theorem Sound.loadWorkingCopy (sound : Sound options ∅ state) (cacheKey : String) (now : Int) :
    Sound options ∅ (state.loadWorkingCopy cacheKey now) ∧
    (state.loadWorkingCopy cacheKey now).entries.entries.length ≤ state.entries.entries.length := by
  unfold State.loadWorkingCopy
  cases found : state.entries.get cacheKey with
  | none => exact ⟨sound.awaitLoad found, by rw [awaitLoad_entries]⟩
  | some entry =>
    simp only []
    split
    case isTrue => exact ⟨sound.serve found now, length_touch found⟩
    case isFalse =>
      have gone : (state.evict cacheKey now).entries.get cacheKey = none := by
        rw [evict_entries, OrderedMap.get_delete, if_pos rfl]
      refine ⟨(sound.evict cacheKey now).awaitLoad gone, ?_⟩
      rw [awaitLoad_entries, evict_entries]
      exact List.length_filter_le _ _

theorem loaderReturns_length (state : State) (flight : Nat) (load : InflightUserKeyLoad)
    (result : LoaderResult) (now : Int)
    (bounded : state.entries.entries.length ≤ options.capacity) :
    (state.loaderReturns options flight load result now).entries.entries.length
      ≤ options.capacity := by
  unfold State.loaderReturns
  cases result with
  | failed => exact bounded
  | buffer bytes =>
    simp only []
    split
    case isTrue => exact bounded
    case isFalse =>
      unfold State.populate
      split
      case isTrue =>
        rw [rescheduleExpiry_entries]
        exact enforceCapacity_length _ _
      case isFalse => exact bounded

/-- What an event asks of a state, and does to it. -/
inductive Moves (options : UserKeyCacheOptions) (state : State) (now : Int) : Event → State → Prop
  | withKey (cacheKey : String) :
    Moves options state now (.withKey cacheKey) (state.loadWorkingCopy cacheKey now)
  | loaderReturns {flight : Nat} {load : InflightUserKeyLoad} (result : LoaderResult)
    (found : state.flights flight = some load) (pending : load.promise = .pending) :
    Moves options state now (.loaderReturns flight result)
      (state.loaderReturns options flight load result now)
  | settles {flight : Nat} {load : InflightUserKeyLoad} (found : state.flights flight = some load)
    (ready : load.promise ≠ .pending ∧ load.settled = false) :
    Moves options state now (.settles flight)
      ((state.setFlight flight { load with settled := true }).cleanupLoad load.cacheKey flight)
  | resumes {call flight : Nat} {cacheKey : String} {load : InflightUserKeyLoad}
    (waits : state.calls call = .waiting cacheKey flight)
    (found : state.flights flight = some load) (settled : load.settled = true) :
    Moves options state now (.resumes call) (state.resume call cacheKey flight load now)
  | finishes {call workingKey : Nat} {cacheKey : String}
    (runs : state.calls call = .running cacheKey workingKey) :
    Moves options state now (.finishes call) ((state.fill workingKey).setCall call .finished)
  | evict (cacheKey : String) :
    Moves options state now (.evict cacheKey) (state.evict cacheKey now)
  | clear : Moves options state now .clear state.clear
  | timerFires (id : Nat) : Moves options state now (.timerFires id) (state.timerFires id now)

theorem moves_of_next {event : Event} {now : Int}
    (moves : next options state ⟨event, now⟩ = some after) :
    Moves options state now event after := by
  unfold Keys.next at moves
  cases event with
  | withKey cacheKey => exact Option.some.inj moves ▸ .withKey cacheKey
  | loaderReturns flight result =>
    dsimp only at moves
    split at moves
    · cases moves
    · next found =>
      obtain ⟨pending, same⟩ := Option.ite_none_right_eq_some.mp moves
      exact Option.some.inj same ▸ .loaderReturns result found pending
  | settles flight =>
    dsimp only at moves
    split at moves
    · cases moves
    · next found =>
      obtain ⟨ready, same⟩ := Option.ite_none_right_eq_some.mp moves
      exact Option.some.inj same ▸ .settles found ready
  | resumes call =>
    dsimp only at moves
    split at moves
    · next waits =>
      split at moves
      · cases moves
      · next found =>
        obtain ⟨settled, same⟩ := Option.ite_none_right_eq_some.mp moves
        exact Option.some.inj same ▸ .resumes waits found settled
    · cases moves
  | finishes call =>
    dsimp only at moves
    split at moves
    · next runs => exact Option.some.inj moves ▸ .finishes runs
    · cases moves
  | evict cacheKey => exact Option.some.inj moves ▸ .evict cacheKey
  | clear => exact Option.some.inj moves ▸ .clear
  | timerFires id =>
    obtain ⟨-, same⟩ := Option.ite_none_right_eq_some.mp moves
    exact Option.some.inj same ▸ .timerFires id

theorem Sound.timerOff (sound : Sound options ∅ state) :
    Sound options ∅ { state with expiryTimer := none } := by
  have less : Shrinks state { state with expiryTimer := none } :=
    ⟨rfl, rfl, rfl, rfl, fun _ _ found => found, fun _ _ found => found⟩
  exact ⟨sound.accounted.congr rfl rfl fun _ _ _ => Iff.rfl, sound.loads.shrinks less,
    sound.clean, sound.dated⟩

/-- **A step keeps the invariant and the capacity.** -/
theorem Sound.next (sound : Sound options ∅ state)
    (bounded : state.entries.entries.length ≤ options.capacity) {action : Action}
    (moves : next options state action = some after) :
    Sound options ∅ after ∧ after.entries.entries.length ≤ options.capacity := by
  obtain ⟨event, now⟩ := action
  cases moves_of_next moves with
  | withKey cacheKey =>
    obtain ⟨kept, shorter⟩ := sound.loadWorkingCopy cacheKey now
    exact ⟨kept, shorter.trans bounded⟩
  | @loaderReturns flight load result found pending =>
    exact ⟨sound.loaderReturns found pending result now,
      loaderReturns_length state flight load result now bounded⟩
  | @settles flight load found ready =>
    refine ⟨?_, by rw [cleanupLoad_entries]; exact bounded⟩
    have settled : Sound options {flight}
        (state.setFlight flight { load with settled := true }) := by
      refine sound.setFlight found rfl rfl rfl id ?_ fun _ => rfl
      have stage := sound.loads.stage flight load found
      unfold InflightUserKeyLoad.Stage at stage ⊢
      cases promise : load.promise with
      | pending => exact absurd promise ready.1
      | fulfilled source =>
        rw [promise] at stage
        refine .inl (stage.resolve_right fun isOver => ?_)
        exact absurd (isOver.1.1.symm.trans ready.2) Bool.false_ne_true.symm
      | rejected =>
        rw [promise] at stage
        exact stage
    have there : (state.setFlight flight { load with settled := true }).flights flight
        = some { load with settled := true } := Function.update_self _ _ _
    have cleaned := settled.cleanupLoad there
    exact cleaned
  | @resumes call flight cacheKey load waits found =>
    refine ⟨sound.resume waits found now, ?_⟩
    unfold State.resume
    rw [cleanupLoad_entries]
    show (state.receive call cacheKey load.promise now).entries.entries.length ≤ _
    rw [receive_entries]
    exact bounded
  | finishes runs => exact ⟨sound.finish runs, bounded⟩
  | evict cacheKey =>
    refine ⟨sound.evict cacheKey now, ?_⟩
    rw [evict_entries]
    exact (List.length_filter_le _ _).trans bounded
  | clear =>
    obtain ⟨cleared, _, empty, _⟩ := sound.clear
    exact ⟨cleared, by rw [empty]; exact Nat.zero_le _⟩
  | timerFires id =>
    unfold State.timerFires
    split
    case isFalse => exact ⟨sound, bounded⟩
    case isTrue =>
      obtain ⟨expired, _, shorter⟩ := expireEntries_keeps sound.timerOff now
      refine ⟨expired.rescheduleExpiry now, ?_⟩
      rw [rescheduleExpiry_entries]
      exact shorter.trans bounded

end Toard.Keys
