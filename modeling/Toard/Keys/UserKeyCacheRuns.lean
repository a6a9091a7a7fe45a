/-
**What the user key cache guarantees over every run.**

* **`userKeyCache_guarantees`**: every reachable state guarantees this.
-/

import Toard.Keys.CacheSteps

namespace Toard.Keys

open Toard.Library (OrderedMap Reachable ReachableBy)

variable {options : UserKeyCacheOptions} {state after : State} {spared : String → Prop}

/-! ### What becomes of the loads -/

def Event.Invalidates (event : Event) (cacheKey : String) : Prop :=
  event = .evict cacheKey ∨ event = .clear

/-- Loads in flight are the ones before or new ones, and a load whose loader still runs can be
joined as before unless its key is `spared` no longer. -/
structure Carries (spared : String → Prop) (before after : State) : Prop where
  nextFlight : before.nextFlight ≤ after.nextFlight
  inflight : ∀ cacheKey flight, after.inflight.get cacheKey = some flight →
    before.inflight.get cacheKey = some flight ∨ before.nextFlight ≤ flight
  kept : ∀ flight load, before.flights flight = some load → ∃ later,
    after.flights flight = some later ∧ later.cacheKey = load.cacheKey ∧
    (later.promise = .pending → load.promise = .pending ∧
      (spared load.cacheKey → before.inflight.get load.cacheKey = some flight →
        after.inflight.get load.cacheKey = some flight))

theorem Carries.trans {first middle last : State} (start : Carries spared first middle)
    (rest : Carries spared middle last) : Carries spared first last where
  nextFlight := start.nextFlight.trans rest.nextFlight
  inflight cacheKey flight joined := by
    rcases rest.inflight cacheKey flight joined with before | fresh
    · exact start.inflight cacheKey flight before
    · exact .inr (start.nextFlight.trans fresh)
  kept flight load found := by
    obtain ⟨later, foundLater, keyed, pending⟩ := start.kept flight load found
    obtain ⟨last, foundLast, keyedLast, pendingLast⟩ := rest.kept flight later foundLater
    refine ⟨last, foundLast, keyedLast.trans keyed, fun waits => ?_⟩
    obtain ⟨middlePending, middleKept⟩ := pendingLast waits
    obtain ⟨firstPending, firstKept⟩ := pending middlePending
    refine ⟨firstPending, fun spare joined => ?_⟩
    rw [keyed] at middleKept
    exact middleKept spare (firstKept spare joined)

theorem Carries.of_eq (flights : after.flights = state.flights)
    (nextFlight : after.nextFlight = state.nextFlight)
    (inflight : after.inflight = state.inflight) : Carries spared state after where
  nextFlight := nextFlight.ge
  inflight cacheKey flight joined := .inl (inflight ▸ joined)
  kept flight load found := ⟨load, by rw [flights, found], rfl, fun pending =>
    ⟨pending, fun _ joined => by rw [inflight, joined]⟩⟩

theorem Carries.of_update {flight : Nat} {load : InflightUserKeyLoad}
    (changed : InflightUserKeyLoad) (found : state.flights flight = some load)
    (cacheKey : changed.cacheKey = load.cacheKey)
    (pending : changed.promise = .pending → load.promise = .pending)
    (flights : after.flights = Function.update state.flights flight (some changed))
    (nextFlight : after.nextFlight = state.nextFlight)
    (inflight : after.inflight = state.inflight) : Carries spared state after where
  nextFlight := nextFlight.ge
  inflight key other joined := .inl (inflight ▸ joined)
  kept other record loaded := by
    rw [flights, Function.update_apply, inflight]
    split
    case isTrue here =>
      subst here
      rw [found, Option.some_inj] at loaded
      subst loaded
      exact ⟨changed, rfl, cacheKey, fun waits => ⟨pending waits, fun _ joined => joined⟩⟩
    case isFalse => exact ⟨record, loaded, rfl, fun waits => ⟨waits, fun _ joined => joined⟩⟩

theorem Carries.cleanupLoad {flight : Nat} {load : InflightUserKeyLoad} (cacheKey : String)
    (found : state.flights flight = some load) (ended : load.promise ≠ .pending) :
    Carries spared state (state.cleanupLoad cacheKey flight) := by
  by_cases isOver : load.Over
  case neg =>
    rw [cleanupLoad_of_not_over found isOver]
    exact .of_eq rfl rfl rfl
  case pos =>
    obtain ⟨generations, inflight, same, less, _, kept⟩ :=
      cleanupLoad_of_over cacheKey found isOver
    rw [same]
    have flights : ((state.wipe load.source).setFlight flight { load with source := none }).flights
        = Function.update state.flights flight (some { load with source := none }) := by
      cases load.source with
      | none => rfl
      | some source => rfl
    have nextFlight : (state.wipe load.source).nextFlight = state.nextFlight := by
      cases load.source with
      | none => rfl
      | some source => rfl
    refine ⟨nextFlight.ge, fun key other joined => .inl (less key other joined), ?_⟩
    intro other record loaded
    show ∃ later, ((state.wipe load.source).setFlight flight
      { load with source := none }).flights other = some later ∧ _
    rw [flights, Function.update_apply]
    split
    case isTrue here =>
      subst here
      rw [found, Option.some_inj] at loaded
      subst loaded
      exact ⟨_, rfl, rfl, fun waits => absurd waits ended⟩
    case isFalse differs =>
      exact ⟨record, loaded, rfl, fun waits => ⟨waits, fun _ joined => kept _ other differs joined⟩⟩

theorem Carries.awaitLoad (sound : Sound options ∅ state) {cacheKey : String}
    (empty : state.entries.get cacheKey = none) :
    Carries spared state (state.awaitLoad cacheKey) := by
  have joined : Carries spared state (state.joinLoad cacheKey).1 := by
    unfold State.joinLoad
    cases found : state.inflight.get cacheKey with
    | some flight => exact .of_eq rfl rfl rfl
    | none =>
      refine ⟨Nat.le_succ _, fun key flight joined => ?_, fun flight load loaded => ?_⟩
      · replace joined := (OrderedMap.get_set _ _ _ _).symm.trans joined
        split at joined
        case isTrue => exact .inr (Option.some_inj.mp joined).le
        case isFalse => exact .inl joined
      · have older : flight ≠ state.nextFlight := by
          rintro rfl
          rw [sound.loads.unmadeFlights _ (le_refl _)] at loaded
          cases loaded
        refine ⟨load, ?_, rfl, fun pending => ⟨pending, fun _ joined => ?_⟩⟩
        · show Function.update state.flights _ _ flight = _
          rw [Function.update_apply, if_neg older, loaded]
        · show (state.inflight.set cacheKey state.nextFlight).get load.cacheKey = _
          rw [OrderedMap.get_set, if_neg]
          · exact joined
          · intro same
            rw [same, found] at joined
            cases joined
  obtain ⟨_, load, found, _, _⟩ := joinLoad_spec sound empty
  rw [awaitLoad_eq found]
  exact joined.trans
    (.of_update { load with waiters := load.waiters + 1 } found rfl id rfl rfl rfl)

theorem Carries.evict (cacheKey : String) (now : Int)
    (ends : ∀ flight load, state.flights flight = some load → load.cacheKey = cacheKey →
      load.promise = .pending → state.inflight.get cacheKey = some flight → ¬ spared cacheKey) :
    Carries spared state (state.evict cacheKey now) := by
  have less := shrinks_evict state cacheKey now
  refine ⟨less.nextFlight.ge, fun key flight joined => .inl (less.inflight key flight joined),
    fun flight load found => ⟨load, by rw [less.flights, found], rfl,
      fun pending => ⟨pending, fun spare joined => ?_⟩⟩⟩
  rw [evict_inflight, OrderedMap.get_delete]
  split
  case isTrue here =>
    rw [here] at joined spare
    exact absurd spare (ends flight load found here pending joined)
  case isFalse => exact joined

theorem enforceCapacity_inflight (state : State) (capacity : Nat) :
    (state.enforceCapacity capacity).inflight = state.inflight := by
  unfold State.enforceCapacity
  generalize state.entries.entries.length - capacity = turns
  induction turns generalizing state with
  | zero => rfl
  | succ turns ih =>
    refine (ih state.dropOldest).trans ?_
    unfold State.dropOldest
    split
    case h_1 => rfl
    case h_2 => rfl

theorem expireEntries_inflight (state : State) (now : Int) :
    (state.expireEntries now).inflight = state.inflight := by
  unfold State.expireEntries
  generalize state.entries.entries.filter _ = gone
  induction gone generalizing state with
  | nil => rfl
  | cons head rest ih => exact ih (state.dropEntry head.1 head.2)

theorem Carries.rescheduleExpiry (carries : Carries spared state after) (now : Int) :
    Carries spared state (after.rescheduleExpiry now) := by
  obtain ⟨_, _, same⟩ := rescheduleExpiry_eq after now
  rw [same]
  exact carries.trans (.of_eq rfl rfl rfl)

theorem Carries.loaderReturns {flight : Nat} {load : InflightUserKeyLoad}
    (found : state.flights flight = some load) (result : LoaderResult) (now : Int) :
    Carries spared state (state.loaderReturns options flight load result now) := by
  unfold State.loaderReturns
  cases result with
  | failed => exact .of_update { load with promise := .rejected } found rfl nofun rfl rfl rfl
  | buffer bytes =>
    simp only []
    split
    case isTrue =>
      exact .of_update { load with promise := .rejected } found rfl nofun rfl rfl rfl
    case isFalse =>
      have given : Carries spared state
          ((state.make (.load flight) load.cacheKey now bytes).setFlight flight { load with
            promise := .fulfilled state.nextBuffer, source := some state.nextBuffer }) :=
        .of_update { load with
          promise := .fulfilled state.nextBuffer, source := some state.nextBuffer }
          found rfl nofun rfl rfl rfl
      unfold State.populate
      split
      case isFalse => exact given
      case isTrue =>
        refine Carries.rescheduleExpiry (given.trans ?_) now
        have less := shrinks_enforceCapacity
        exact .of_eq (less _ _).flights (less _ _).nextFlight (enforceCapacity_inflight _ _)

/-- **What a step does to the loads.** Only an invalidation of its key takes a load whose loader
still runs from those who might join it. -/
theorem carries_next (sound : Sound options ∅ state) {action : Action}
    (moves : next options state action = some after) :
    Carries (fun cacheKey => ¬ action.event.Invalidates cacheKey) state after := by
  obtain ⟨event, now⟩ := action
  cases moves_of_next moves with
  | withKey cacheKey =>
    unfold State.loadWorkingCopy
    cases found : state.entries.get cacheKey with
    | none => exact .awaitLoad sound found
    | some entry =>
      simp only []
      split
      case isTrue => exact .of_eq rfl rfl rfl
      case isFalse =>
        have gone : (state.evict cacheKey now).entries.get cacheKey = none := by
          rw [evict_entries, OrderedMap.get_delete, if_pos rfl]
        refine (Carries.evict cacheKey now ?_).trans (.awaitLoad (sound.evict cacheKey now) gone)
        intro flight load loaded _ pending joined
        have none := sound.loads.alone cacheKey flight load joined loaded pending
        rw [found] at none
        cases none
  | loaderReturns result found => exact .loaderReturns found result now
  | @settles flight load found ready =>
    have settled : (state.setFlight flight { load with settled := true }).flights flight
        = some { load with settled := true } := Function.update_self _ _ _
    have moved : Carries (fun cacheKey => ¬ (Event.settles flight).Invalidates cacheKey) state
        (state.setFlight flight { load with settled := true }) :=
      .of_update { load with settled := true } found rfl id rfl rfl rfl
    exact moved.trans (.cleanupLoad load.cacheKey settled ready.1)
  | @resumes call flight cacheKey load waits found settled =>
    have ended : load.promise ≠ .pending := by
      intro pending
      have stage := sound.loads.stage flight load found
      unfold InflightUserKeyLoad.Stage at stage
      rw [pending] at stage
      exact Bool.false_ne_true (stage.1.symm.trans settled)
    have received : Carries (fun cacheKey => ¬ (Event.resumes call).Invalidates cacheKey)
        state
        ((state.receive call cacheKey load.promise now).setFlight flight
          { load with waiters := load.waiters - 1 }) := by
      unfold State.receive
      split
      case h_1 =>
        exact .of_update { load with waiters := load.waiters - 1 } found rfl id rfl rfl rfl
      case h_2 =>
        exact .of_update { load with waiters := load.waiters - 1 } found rfl id rfl rfl rfl
    have left : ((state.receive call cacheKey load.promise now).setFlight flight
        { load with waiters := load.waiters - 1 }).flights flight
          = some { load with waiters := load.waiters - 1 } := Function.update_self _ _ _
    exact received.trans (.cleanupLoad cacheKey left ended)
  | finishes => exact .of_eq rfl rfl rfl
  | evict cacheKey => exact .evict cacheKey now fun _ _ _ _ _ _ spare => spare (.inl rfl)
  | clear =>
    obtain ⟨_, less, _, _⟩ := sound.clear
    exact ⟨less.nextFlight.ge, fun key flight joined => .inl (less.inflight key flight joined),
      fun flight load found => ⟨load, by rw [less.flights, found], rfl,
        fun pending => ⟨pending, fun spare => absurd (.inr rfl) spare⟩⟩⟩
  | timerFires id =>
    unfold State.timerFires
    split
    case isFalse => exact .of_eq rfl rfl rfl
    case isTrue =>
      refine Carries.rescheduleExpiry ?_ now
      obtain ⟨_, dropped, _⟩ := expireEntries_keeps sound.timerOff now
      exact .of_eq dropped.flights dropped.nextFlight (expireEntries_inflight _ now)

/-! ### The guarantees -/

/-- The event ends the life of a key's entry and of its load: an invalidation, or a call that finds
the entry too old. -/
def Action.Ends (state : State) (action : Action) (cacheKey : String) : Prop :=
  action.event.Invalidates cacheKey ∨ (action.event = .withKey cacheKey ∧
    ∃ entry, state.entries.get cacheKey = some entry ∧ entry.expiresAt ≤ action.now)

/-- The buffer can still be reached: it is an entry's, the source of a load that has not settled
or that a call waits for, or the working copy of an operation. -/
def InUse (state : State) (buffer : Nat) : Prop :=
  (∃ cacheKey entry, state.entries.get cacheKey = some entry ∧ entry.key = buffer) ∨
  (∃ flight load, state.flights flight = some load ∧ load.source = some buffer ∧
    (load.settled = false ∨ ∃ call cacheKey, state.calls call = .waiting cacheKey flight)) ∨
  ∃ call cacheKey, state.calls call = .running cacheKey buffer

structure Guarantees (options : UserKeyCacheOptions) (state : State) : Prop where
  bounded : state.entries.entries.length ≤ options.capacity
  /-- A call that is served at once is served an entry younger than `ttlMs`. -/
  young : ∀ cacheKey now after workingKey,
    next options state ⟨.withKey cacheKey, now⟩ = some after →
    after.calls state.nextCall = .running cacheKey workingKey → ∃ entry cell,
      state.entries.get cacheKey = some entry ∧ state.buffers entry.key = some cell ∧
      cell.owner = .entry cacheKey ∧ now < cell.madeAt + options.ttlMs
  /-- A load begun before its key was invalidated never populates the cache, and no later call
  joins it. -/
  ended : ∀ action after flight load, next options state action = some after →
    state.flights flight = some load → action.Ends state load.cacheKey →
    ∀ later, Reachable (next options) after later →
      (∀ result now last, next options later ⟨.loaderReturns flight result, now⟩ = some last →
        last.entries = later.entries) ∧
      ∀ cacheKey key now last, next options later ⟨.withKey key, now⟩ = some last →
        last.calls later.nextCall ≠ .waiting cacheKey flight
  /-- Until its loader returns or its key is invalidated, every caller shares the load that one
  waits for, and no other is begun. -/
  shared : ∀ cacheKey now after flight,
    next options state ⟨.withKey cacheKey, now⟩ = some after →
    after.calls state.nextCall = .waiting cacheKey flight →
    ∀ later, ReachableBy (next options)
      (fun _ action => ¬ action.event.Invalidates cacheKey) after later →
    ∀ load, later.flights flight = some load → load.promise = .pending →
    ∀ now last, next options later ⟨.withKey cacheKey, now⟩ = some last →
      last.calls later.nextCall = .waiting cacheKey flight ∧ last.nextFlight = later.nextFlight
  seen : ∀ call cacheKey workingKey, state.calls call = .running cacheKey workingKey → ∃ cell,
    state.buffers workingKey = some cell ∧ Returned state cacheKey cell.bytes
  zeroed : ∀ buffer cell, state.buffers buffer = some cell → InUse state buffer ∨ cell.Zeroed

theorem sound_start : Sound options ∅ {} where
  accounted := by
    refine ⟨fun _ _ => rfl, fun owner key buffer holding => ?_, fun _ _ => nofun⟩
    cases owner with
    | load flight =>
      obtain ⟨_, found, _⟩ := holding
      cases found
    | entry owned =>
      obtain ⟨_, _, found, _⟩ := holding
      cases found
    | call call => cases holding
  loads := ⟨fun _ _ => rfl, fun _ _ => rfl, fun _ _ => nofun, fun _ _ _ => nofun,
    fun _ _ => nofun, fun _ _ _ => nofun, fun _ _ => nofun⟩
  clean := fun _ _ => nofun
  dated := fun _ _ => nofun

theorem sound_run {start : State} (sound : Sound options ∅ start)
    (bounded : start.entries.entries.length ≤ options.capacity)
    {admits : State → Action → Prop} (reached : ReachableBy (next options) admits start state) :
    Sound options ∅ state ∧ state.entries.entries.length ≤ options.capacity :=
  reached.invariant (fun state => Sound options ∅ state ∧
    state.entries.entries.length ≤ options.capacity) ⟨sound, bounded⟩
    fun _ _ _ holding _ moves => holding.1.next holding.2 moves

theorem detached_run {flight : Nat} (sound : Sound options ∅ state)
    (bounded : state.entries.entries.length ≤ options.capacity) (known : flight < state.nextFlight)
    (detached : ∀ key, state.inflight.get key ≠ some flight) {later : State}
    (reached : Reachable (next options) state later) :
    Sound options ∅ later ∧ flight < later.nextFlight ∧
      ∀ key, later.inflight.get key ≠ some flight := by
  have holding : (Sound options ∅ later ∧ later.entries.entries.length ≤ options.capacity) ∧
      flight < later.nextFlight ∧ ∀ key, later.inflight.get key ≠ some flight := by
    refine Reachable.invariant (fun now => (Sound options ∅ now ∧
      now.entries.entries.length ≤ options.capacity) ∧ flight < now.nextFlight ∧
        ∀ key, now.inflight.get key ≠ some flight) ⟨⟨sound, bounded⟩, known, detached⟩ ?_ reached
    rintro before action after ⟨⟨sound, bounded⟩, known, detached⟩ moves
    have carries := carries_next sound moves
    refine ⟨sound.next bounded moves, known.trans_le carries.nextFlight, fun key joined => ?_⟩
    rcases carries.inflight key flight joined with before | fresh
    · exact detached key before
    · exact absurd known (Nat.not_lt.mpr fresh)
  exact ⟨holding.1.1, holding.2⟩

theorem awaitLoad_calls (state : State) (cacheKey : String) :
    (state.awaitLoad cacheKey).calls state.nextCall
      = .waiting cacheKey (state.joinLoad cacheKey).2 := by
  have nextCall : (state.joinLoad cacheKey).1.nextCall = state.nextCall := by
    unfold State.joinLoad
    split
    case h_1 => rfl
    case h_2 => rfl
  rw [← nextCall]
  unfold State.awaitLoad
  simp only []
  split
  case h_1 => exact Function.update_self _ _ _
  case h_2 => exact Function.update_self _ _ _

theorem awaitLoad_inflight (state : State) (cacheKey : String) :
    (state.awaitLoad cacheKey).inflight = (state.joinLoad cacheKey).1.inflight := by
  unfold State.awaitLoad
  simp only []
  split
  case h_1 => rfl
  case h_2 => rfl

theorem joinLoad_inflight (state : State) (cacheKey : String) :
    (state.joinLoad cacheKey).1.inflight.get cacheKey = some (state.joinLoad cacheKey).2 := by
  unfold State.joinLoad
  split
  case h_1 flight found => exact found
  case h_2 => exact (OrderedMap.get_set _ _ _ _).trans (if_pos rfl)

theorem loadWorkingCopy_waits {cacheKey key : String} {flight : Nat} {now : Int}
    (waits : (state.loadWorkingCopy cacheKey now).calls state.nextCall = .waiting key flight) :
    ∃ cleared : State, (cleared = state ∨ cleared = state.evict cacheKey now) ∧
      cleared.entries.get cacheKey = none ∧
      state.loadWorkingCopy cacheKey now = cleared.awaitLoad cacheKey ∧
      key = cacheKey ∧ flight = (cleared.joinLoad cacheKey).2 := by
  unfold State.loadWorkingCopy at waits ⊢
  cases found : state.entries.get cacheKey with
  | none =>
    simp only [found] at waits
    rw [awaitLoad_calls] at waits
    cases waits
    exact ⟨state, .inl rfl, found, rfl, rfl, rfl⟩
  | some entry =>
    simp only [found] at waits ⊢
    split at waits
    case isTrue => cases (Function.update_self _ _ _).symm.trans waits
    case isFalse old =>
      rw [← (shrinks_evict state cacheKey now).nextCall, awaitLoad_calls] at waits
      cases waits
      rw [if_neg old]
      refine ⟨_, .inr rfl, ?_, rfl, rfl, rfl⟩
      rw [evict_entries, OrderedMap.get_delete, if_pos rfl]

theorem ended_detached (sound : Sound options ∅ state) {action : Action} {flight : Nat}
    {load : InflightUserKeyLoad} (moves : next options state action = some after)
    (found : state.flights flight = some load) (ends : action.Ends state load.cacheKey) :
    flight < after.nextFlight ∧ ∀ key, after.inflight.get key ≠ some flight := by
  have known : flight < state.nextFlight := by
    by_contra beyond
    rw [sound.loads.unmadeFlights flight (by omega)] at found
    cases found
  refine ⟨known.trans_le (carries_next sound moves).nextFlight, fun key joined => ?_⟩
  have evicted : ∀ now, (state.evict load.cacheKey now).inflight.get key ≠ some flight := by
    intro now still
    rw [evict_inflight, OrderedMap.get_delete] at still
    split at still
    case isTrue => cases still
    case isFalse differs =>
      obtain ⟨record, loaded, keyed⟩ := sound.loads.joinable key flight still
      rw [found, Option.some_inj] at loaded
      exact differs (by rw [← keyed, loaded])
  obtain ⟨event, now⟩ := action
  rcases ends with (rfl | rfl) | ⟨rfl, entry, present, old⟩
  · cases moves
    exact evicted now joined
  · cases moves
    exact sound.clear.2.2.2 key flight joined
  · cases moves
    unfold State.loadWorkingCopy at joined
    simp only [present] at joined
    rw [if_neg (Int.not_lt.mpr old), awaitLoad_inflight] at joined
    unfold State.joinLoad at joined
    split at joined
    case h_1 => exact evicted now joined
    case h_2 =>
      replace joined := (OrderedMap.get_set _ _ _ _).symm.trans joined
      split at joined
      case isTrue =>
        rw [(shrinks_evict state load.cacheKey now).nextFlight] at joined
        cases joined
        exact Nat.lt_irrefl _ known
      case isFalse => exact evicted now joined

theorem shared_run (sound : Sound options ∅ state)
    (bounded : state.entries.entries.length ≤ options.capacity) {cacheKey : String} {now : Int}
    {flight : Nat} (moves : next options state ⟨.withKey cacheKey, now⟩ = some after)
    (waits : after.calls state.nextCall = .waiting cacheKey flight) {later : State}
    (reached : ReachableBy (next options) (fun _ action => ¬ action.event.Invalidates cacheKey)
      after later) :
    Sound options ∅ later ∧ ∃ load, later.flights flight = some load ∧
      (load.promise = .pending → later.inflight.get cacheKey = some flight) := by
  have moved := sound.next bounded moves
  have begun : ∃ load, after.flights flight = some load ∧ load.cacheKey = cacheKey ∧
      (load.promise = .pending → after.inflight.get cacheKey = some flight) := by
    cases moves
    obtain ⟨cleared, _, _, same, _, rfl⟩ := loadWorkingCopy_waits waits
    have joined : (state.loadWorkingCopy cacheKey now).inflight.get cacheKey
        = some (cleared.joinLoad cacheKey).2 := by
      rw [same, awaitLoad_inflight, joinLoad_inflight]
    obtain ⟨load, found, keyed⟩ := moved.1.loads.joinable cacheKey _ joined
    exact ⟨load, found, keyed, fun _ => joined⟩
  have holding : (Sound options ∅ later ∧ later.entries.entries.length ≤ options.capacity) ∧
      ∃ load, later.flights flight = some load ∧ load.cacheKey = cacheKey ∧
        (load.promise = .pending → later.inflight.get cacheKey = some flight) := by
    refine reached.invariant (fun state => (Sound options ∅ state ∧
      state.entries.entries.length ≤ options.capacity) ∧ ∃ load, state.flights flight = some load ∧
        load.cacheKey = cacheKey ∧
        (load.promise = .pending → state.inflight.get cacheKey = some flight)) ⟨moved, begun⟩ ?_
    rintro before action after ⟨⟨sound, bounded⟩, load, found, keyed, joined⟩ spared moves
    obtain ⟨record, loaded, same, kept⟩ := (carries_next sound moves).kept flight load found
    refine ⟨sound.next bounded moves, record, loaded, same.trans keyed, fun pending => ?_⟩
    obtain ⟨before, still⟩ := kept pending
    rw [keyed] at still
    exact still spared (joined before)
  obtain ⟨⟨kept, _⟩, load, found, _, joined⟩ := holding
  exact ⟨kept, load, found, joined⟩

/-- **The user key cache.** Whatever the order of calls, loads, invalidations, operations and
timers, every state that the cache comes to guarantees its capacity, the age of its entries, the
end of an invalidated load, the sharing of a load, whole keys, and the wiping of the rest. -/
theorem userKeyCache_guarantees (options : UserKeyCacheOptions) (state : State)
    (reached : Reachable (next options) {} state) : Guarantees options state := by
  obtain ⟨sound, bounded⟩ := sound_run sound_start (Nat.zero_le _) reached
  refine ⟨bounded, ?young, ?ended, ?shared, ?seen, ?zeroed⟩
  case young =>
    intro cacheKey now after workingKey moves served
    cases moves
    unfold State.loadWorkingCopy at served
    cases found : state.entries.get cacheKey with
    | none =>
      simp only [found] at served
      rw [awaitLoad_calls] at served
      cases served
    | some entry =>
      simp only [found] at served
      split at served
      case isTrue young =>
        have holding : Holds state (.entry cacheKey) cacheKey entry.key := ⟨rfl, entry, found, rfl⟩
        obtain ⟨cell, made, owner, _⟩ := sound.accounted.held _ _ _ holding
        obtain ⟨dated, made', date⟩ := sound.dated cacheKey entry found
        rw [made, Option.some_inj] at made'
        subst made'
        exact ⟨entry, cell, rfl, made, owner, date ▸ young⟩
      case isFalse =>
        rw [← (shrinks_evict state cacheKey now).nextCall, awaitLoad_calls] at served
        cases served
  case ended =>
    intro action after flight load moves found ends later reached
    obtain ⟨known, detached⟩ := ended_detached sound moves found ends
    have moved := sound.next bounded moves
    obtain ⟨kept, known, detached⟩ := detached_run moved.1 moved.2 known detached reached
    refine ⟨fun result now last moves => ?_, fun cacheKey key now last moves waits => ?_⟩
    · unfold Keys.next at moves
      cases loaded : later.flights flight with
      | none => simp only [loaded] at moves; cases moves
      | some load =>
        simp only [loaded] at moves
        split at moves
        case isFalse => cases moves
        case isTrue =>
          cases moves
          unfold State.loaderReturns
          cases result with
          | failed => rfl
          | buffer bytes =>
            simp only []
            split
            case isTrue => rfl
            case isFalse =>
              unfold State.populate
              rw [if_neg]
              · rfl
              · exact fun current => detached load.cacheKey current.2
    · cases moves
      obtain ⟨cleared, which, _, _, _, joins⟩ := loadWorkingCopy_waits waits
      have joined := joinLoad_inflight cleared key
      rw [← joins] at joined
      unfold State.joinLoad at joins
      have less : Shrinks later cleared := by
        rcases which with rfl | rfl
        · exact .refl cleared
        · exact shrinks_evict later key now
      split at joins
      case h_1 other found =>
        subst joins
        exact detached key (less.inflight key flight found)
      case h_2 =>
        have fresh : flight = later.nextFlight := joins.trans less.nextFlight
        exact absurd known (Nat.not_lt.mpr fresh.ge)
  case shared =>
    intro cacheKey now after flight moves waits later reached load found pending again last next
    obtain ⟨kept, record, loaded, joinable⟩ := shared_run sound bounded moves waits reached
    rw [found, Option.some_inj] at loaded
    subst loaded
    have joined := joinable pending
    have none := kept.loads.alone cacheKey flight load joined found pending
    cases next
    unfold State.loadWorkingCopy
    simp only [none]
    have joins : later.joinLoad cacheKey = (later, flight) := by
      unfold State.joinLoad
      simp only [joined]
    refine ⟨?_, ?_⟩
    · rw [awaitLoad_calls, joins]
    · have awaited :
          (later.joinLoad cacheKey).1.flights (later.joinLoad cacheKey).2 = some load := by
        rw [joins]
        exact found
      rw [awaitLoad_eq awaited, joins]
      rfl
  case seen =>
    intro call cacheKey workingKey runs
    have holding : Holds state (.call call) cacheKey workingKey := runs
    obtain ⟨cell, made, _, _, returned, _, kept⟩ := sound.accounted.held _ _ _ holding
    refine ⟨cell, made, ?_⟩
    rw [kept (Set.notMem_empty _)]
    exact returned
  case zeroed =>
    intro buffer cell made
    refine (sound.accounted.rest buffer cell made).imp_left fun holding => ?_
    cases owner : cell.owner with
    | entry owned =>
      rw [owner] at holding
      obtain ⟨rfl, entry, found, same⟩ := holding
      exact .inl ⟨_, entry, found, same⟩
    | call call =>
      rw [owner] at holding
      exact .inr (.inr ⟨call, _, holding⟩)
    | load flight =>
      rw [owner] at holding
      obtain ⟨load, found, _, source⟩ := holding
      refine .inr (.inl ⟨flight, load, found, source, ?_⟩)
      by_contra unreachable
      rw [not_or, Bool.not_eq_false] at unreachable
      have isOver : load.Over := by
        refine ⟨unreachable.1, ?_⟩
        by_contra counted
        exact unreachable.2 (sound.loads.exists_waiting found counted)
      rw [(sound.clean flight load found (Set.notMem_empty _) isOver).1] at source
      cases source

/-- Two callers share a load, and the key is evicted meanwhile. -/
theorem userKeyCache_guarantees_shared :
    Guarantees { ttlMs := 300000 }
      (((({} : State).loadWorkingCopy "u:1" 0).loadWorkingCopy "u:1" 1).evict "u:1" 2) :=
  userKeyCache_guarantees { ttlMs := 300000 } _
    (.step ⟨.evict "u:1", 2⟩ (.step ⟨.withKey "u:1", 1⟩ (.step ⟨.withKey "u:1", 0⟩ .start trivial
      rfl) trivial rfl) trivial rfl)

end Toard.Keys
