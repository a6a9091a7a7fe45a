/-
**What the cache does on its own: wiping, dropping and cleaning up.**

`Sound moved` is the invariant of the cache: its buffers are accounted for, its loads are counted,
nothing is left of a load that is over (`moved` apart), and an entry ends `ttlMs` after its copy was
made. Each method that only takes away keeps it, and what each leaves of the maps is said once.
-/

import Toard.Keys.Flights

namespace Toard.Keys

open Toard.Library (OrderedMap)

variable {options : UserKeyCacheOptions} {state after : State} {moved : Set Nat}

structure Sound (options : UserKeyCacheOptions) (moved : Set Nat) (state : State) : Prop where
  accounted : Accounted ∅ state
  loads : Loads state
  clean : Clean moved state
  dated : ∀ cacheKey entry, state.entries.get cacheKey = some entry → ∃ cell,
    state.buffers entry.key = some cell ∧ entry.expiresAt = cell.madeAt + options.ttlMs

theorem Clean.shrinks (clean : Clean moved state) (less : Shrinks state after) :
    Clean moved after := by
  intro flight load found outside isOver
  rw [less.flights] at found
  obtain ⟨empty, gone⟩ := clean flight load found outside isOver
  exact ⟨empty, fun cacheKey joined => gone cacheKey (less.inflight cacheKey flight joined)⟩

theorem dated_fill {entry : UserKeyCacheEntry}
    (dated : ∃ cell, state.buffers entry.key = some cell ∧
      entry.expiresAt = cell.madeAt + options.ttlMs) (buffer : Nat) :
    ∃ cell, (state.fill buffer).buffers entry.key = some cell ∧
      entry.expiresAt = cell.madeAt + options.ttlMs := by
  obtain ⟨cell, found, date⟩ := dated
  rw [fill_apply]
  split
  case isTrue here =>
    rw [← here, found]
    exact ⟨cell.fill, rfl, date⟩
  case isFalse => exact ⟨cell, found, date⟩

theorem rescheduleExpiry_eq (state : State) (now : Int) : ∃ expiryTimer timers,
    state.rescheduleExpiry now = { state with expiryTimer, timers } := by
  unfold State.rescheduleExpiry
  split
  case h_1 => exact ⟨_, _, rfl⟩
  case h_2 => exact ⟨_, _, rfl⟩

theorem Sound.rescheduleExpiry (sound : Sound options moved state) (now : Int) :
    Sound options moved (state.rescheduleExpiry now) := by
  obtain ⟨expiryTimer, timers, same⟩ := rescheduleExpiry_eq state now
  rw [same]
  exact ⟨sound.accounted.congr rfl rfl fun _ _ _ => Iff.rfl,
    sound.loads.shrinks ⟨rfl, rfl, rfl, rfl, fun _ _ => id, fun _ _ => id⟩,
    sound.clean.shrinks ⟨rfl, rfl, rfl, rfl, fun _ _ => id, fun _ _ => id⟩, sound.dated⟩

/-! ### Entries go -/

theorem holds_delete {cacheKey : String} (entries : after.entries = state.entries.delete cacheKey)
    (flights : after.flights = state.flights) (calls : after.calls = state.calls) (owner : Owner)
    (key : String) (buffer : Nat) :
    Holds after owner key buffer
      ↔ Holds state owner key buffer ∧ owner ∉ ({.entry cacheKey} : Set Owner) := by
  rw [Set.mem_singleton_iff]
  cases owner with
  | load flight =>
    unfold Holds
    rw [flights]
    exact (and_iff_left (by rintro ⟨⟩)).symm
  | call call =>
    unfold Holds
    rw [calls]
    exact (and_iff_left (by rintro ⟨⟩)).symm
  | entry owned =>
    show (owned = key ∧ ∃ entry, after.entries.get key = some entry ∧ _) ↔ _
    rw [entries, OrderedMap.get_delete, Owner.entry.injEq]
    constructor
    · rintro ⟨rfl, entry, found, same⟩
      split at found
      case isTrue => cases found
      case isFalse differs => exact ⟨⟨rfl, entry, found, same⟩, differs⟩
    · rintro ⟨⟨rfl, entry, found, same⟩, differs⟩
      exact ⟨rfl, entry, by rw [if_neg differs, found], same⟩

theorem get_of_delete {cacheKey key : String} {entry : UserKeyCacheEntry}
    {entries : OrderedMap String UserKeyCacheEntry}
    (found : (entries.delete cacheKey).get key = some entry) : entries.get key = some entry := by
  rw [OrderedMap.get_delete] at found
  split at found
  case isTrue => cases found
  case isFalse => exact found

theorem shrinks_dropEntry (state : State) (cacheKey : String) (entry : UserKeyCacheEntry) :
    Shrinks state (state.dropEntry cacheKey entry) :=
  ⟨rfl, rfl, rfl, rfl, fun _ _ => id, fun _ _ => get_of_delete⟩

theorem Sound.delete (sound : Sound options moved state) {cacheKey : String}
    {entry : UserKeyCacheEntry} (found : state.entries.get cacheKey = some entry)
    (buffers : after.buffers = (state.fill entry.key).buffers)
    (made : after.nextBuffer = state.nextBuffer)
    (entries : after.entries = state.entries.delete cacheKey)
    (less : Shrinks state after) : Sound options moved after where
  accounted := by
    have holding : Holds state (.entry cacheKey) cacheKey entry.key := ⟨rfl, entry, found, rfl⟩
    have filled := sound.accounted.fill holding
    rw [insert_empty_eq] at filled
    exact filled.forget buffers made (holds_delete entries less.flights less.calls)
  loads := sound.loads.shrinks less
  clean := sound.clean.shrinks less
  dated key other present := by
    rw [buffers]
    exact dated_fill (sound.dated key other (less.entries key other present)) _

theorem Sound.dropEntry (sound : Sound options moved state) {cacheKey : String}
    {entry : UserKeyCacheEntry} (found : state.entries.get cacheKey = some entry) :
    Sound options moved (state.dropEntry cacheKey entry) :=
  sound.delete found rfl rfl rfl (shrinks_dropEntry state cacheKey entry)

theorem Sound.dropOldest (sound : Sound options moved state) :
    Sound options moved state.dropOldest := by
  unfold State.dropOldest
  split
  case h_1 => exact sound
  case h_2 oldest first =>
    exact sound.dropEntry (OrderedMap.get_eq_some.mpr (List.mem_of_mem_head? first))

theorem shrinks_dropOldest (state : State) : Shrinks state state.dropOldest := by
  unfold State.dropOldest
  split
  case h_1 => exact .refl state
  case h_2 => exact shrinks_dropEntry state _ _

theorem dropOldest_length (state : State) :
    state.dropOldest.entries.entries.length = state.entries.entries.length - 1 := by
  unfold State.dropOldest
  split
  case h_1 empty => rw [List.head?_eq_none_iff.mp empty, List.length_nil]
  case h_2 oldest first =>
    have distinct := state.entries.distinct
    show (state.entries.entries.filter fun entry => entry.1 ≠ oldest.1).length = _
    cases entries : state.entries.entries with
    | nil => rw [entries] at first; cases first
    | cons head rest =>
      rw [entries] at first distinct
      cases first
      rw [List.map_cons, List.nodup_cons] at distinct
      rw [List.filter_cons_of_neg (by simp), List.length_cons, Nat.add_sub_cancel]
      refine congrArg List.length (List.filter_eq_self.mpr fun entry among => ?_)
      exact decide_eq_true fun same => distinct.1 (same ▸ List.mem_map_of_mem among)

theorem Sound.enforceCapacity (sound : Sound options moved state) (capacity : Nat) :
    Sound options moved (state.enforceCapacity capacity) := by
  unfold State.enforceCapacity
  generalize state.entries.entries.length - capacity = turns
  induction turns generalizing state with
  | zero => exact sound
  | succ turns ih => exact ih sound.dropOldest

theorem shrinks_enforceCapacity (state : State) (capacity : Nat) :
    Shrinks state (state.enforceCapacity capacity) := by
  unfold State.enforceCapacity
  generalize state.entries.entries.length - capacity = turns
  induction turns generalizing state with
  | zero => exact .refl state
  | succ turns ih => exact (shrinks_dropOldest state).trans (ih state.dropOldest)

theorem enforceCapacity_length (state : State) (capacity : Nat) :
    (state.enforceCapacity capacity).entries.entries.length ≤ capacity := by
  have turned : ∀ (turns : Nat) (state : State),
      (Nat.iterate State.dropOldest turns state).entries.entries.length
        = state.entries.entries.length - turns := by
    intro turns
    induction turns with
    | zero => exact fun _ => rfl
    | succ turns ih =>
      intro state
      refine (ih state.dropOldest).trans ?_
      rw [dropOldest_length]
      omega
  refine (turned _ state).trans_le ?_
  omega

theorem foldl_dropEntry (gone : List (String × UserKeyCacheEntry))
    (sound : Sound options moved state) (distinct : (gone.map Prod.fst).Nodup)
    (present : ∀ entry ∈ gone, state.entries.get entry.1 = some entry.2) :
    Sound options moved (gone.foldl (fun state entry => state.dropEntry entry.1 entry.2) state) ∧
    Shrinks state (gone.foldl (fun state entry => state.dropEntry entry.1 entry.2) state) ∧
    (gone.foldl (fun state entry => state.dropEntry entry.1 entry.2) state).entries.entries.length
      ≤ state.entries.entries.length := by
  induction gone generalizing state with
  | nil => exact ⟨sound, .refl state, le_refl _⟩
  | cons head rest ih =>
    rw [List.map_cons, List.nodup_cons] at distinct
    have dropped := sound.dropEntry (present head List.mem_cons_self)
    obtain ⟨kept, less, shorter⟩ := ih dropped distinct.2 fun entry among => by
      show (state.entries.delete head.1).get entry.1 = _
      rw [OrderedMap.get_delete, if_neg, present entry (List.mem_cons_of_mem head among)]
      exact fun same => distinct.1 (same ▸ List.mem_map_of_mem among)
    exact ⟨kept, (shrinks_dropEntry state _ _).trans less,
      shorter.trans (List.length_filter_le _ _)⟩

theorem expireEntries_keeps (sound : Sound options moved state) (now : Int) :
    Sound options moved (state.expireEntries now) ∧ Shrinks state (state.expireEntries now) ∧
    (state.expireEntries now).entries.entries.length ≤ state.entries.entries.length :=
  foldl_dropEntry _ sound
    (state.entries.distinct.sublist (List.filter_sublist.map Prod.fst))
    fun _ among => OrderedMap.get_eq_some.mpr (List.mem_of_mem_filter among)

/-! ### Loads go -/

theorem cleanupLoad_of_over (cacheKey : String) {flight : Nat} {load : InflightUserKeyLoad}
    (found : state.flights flight = some load) (isOver : load.Over) :
    ∃ generations inflight, state.cleanupLoad cacheKey flight =
      { (state.wipe load.source).setFlight flight { load with source := none } with
        generations, inflight } ∧
      (∀ key joined, inflight.get key = some joined → state.inflight.get key = some joined) ∧
      inflight.get cacheKey ≠ some flight ∧
      ∀ key joined, joined ≠ flight → state.inflight.get key = some joined →
        inflight.get key = some joined := by
  have kept : (state.wipe load.source).inflight = state.inflight := by
    cases load.source with
    | none => rfl
    | some source => rfl
  rw [← kept]
  unfold State.cleanupLoad
  rw [found]
  simp only [isOver.1, isOver.2, Bool.not_true, ne_eq, not_true_eq_false, decide_false, Bool.or_self,
    Bool.false_eq_true, if_false]
  refine ⟨_, _, rfl, fun key joined present => ?_, fun present => ?_,
    fun key joined other present => ?_⟩
  · split at present
    case isTrue =>
      rw [OrderedMap.get_delete] at present
      split at present
      case isTrue => cases present
      case isFalse => exact present
    case isFalse => exact present
  · split at present
    case isTrue =>
      rw [OrderedMap.get_delete, if_pos rfl] at present
      cases present
    case isFalse absent => exact absent present
  · split
    case isTrue its =>
      rw [OrderedMap.get_delete, if_neg]
      · exact present
      · rintro rfl
        exact other (Option.some_inj.mp (present.symm.trans its))
    case isFalse => exact present

theorem cleanupLoad_of_not_over {cacheKey : String} {flight : Nat} {load : InflightUserKeyLoad}
    (found : state.flights flight = some load) (needed : ¬ load.Over) :
    state.cleanupLoad cacheKey flight = state := by
  unfold State.cleanupLoad
  rw [found]
  refine if_pos ?_
  unfold InflightUserKeyLoad.Over at needed
  cases settled : load.settled
  · rfl
  · have counted : load.waiters ≠ 0 := fun zero => needed ⟨settled, zero⟩
    simpa using counted

theorem Sound.cleanupLoad {flight : Nat} (sound : Sound options {flight} state)
    {load : InflightUserKeyLoad} (found : state.flights flight = some load) :
    Sound options ∅ (state.cleanupLoad load.cacheKey flight) := by
  by_cases isOver : load.Over
  case neg =>
    rw [cleanupLoad_of_not_over found isOver]
    refine { sound with clean := fun other record loaded _ ended => ?_ }
    refine sound.clean other record loaded (fun here => ?_) ended
    rw [here, found, Option.some_inj] at loaded
    exact isOver (loaded ▸ ended)
  case pos =>
    obtain ⟨generations, inflight, same, less, gone, _⟩ :=
      cleanupLoad_of_over load.cacheKey found isOver
    rw [same]
    have stage : ({ load with source := none } : InflightUserKeyLoad).Stage := by
      have before := sound.loads.stage flight load found
      unfold InflightUserKeyLoad.Stage at before ⊢
      cases promise : load.promise with
      | pending =>
        rw [promise] at before
        exact absurd (before.1.symm.trans isOver.1) Bool.false_ne_true
      | fulfilled source => exact .inr ⟨isOver, rfl⟩
      | rejected => rfl
    have holds : ∀ owner key buffer,
        Holds (state.setFlight flight { load with source := none }) owner key buffer
          ↔ Holds state owner key buffer ∧ owner ∉ ({.load flight} : Set Owner) := by
      intro owner key buffer
      rw [Set.mem_singleton_iff]
      cases owner with
      | entry => exact (and_iff_left (by rintro ⟨⟩)).symm
      | call => exact (and_iff_left (by rintro ⟨⟩)).symm
      | load other =>
        rw [Owner.load.injEq]
        unfold Holds
        show (∃ record, Function.update state.flights flight _ other = some record ∧ _) ↔ _
        rw [Function.update_apply]
        split
        case isTrue here =>
          constructor
          · rintro ⟨record, made, _, source⟩
            cases made
            cases source
          · exact fun both => absurd here both.2
        case isFalse differs => exact (and_iff_left differs).symm
    have loads : Loads (state.setFlight flight { load with source := none }) :=
      sound.loads.setFlight found rfl rfl id stage
    have clean : ∀ other record,
        (state.setFlight flight { load with source := none }).flights other = some record →
        record.Over → record.source = none ∧ ∀ key, inflight.get key ≠ some other := by
      intro other record loaded ended
      replace loaded : Function.update state.flights flight _ other = some record := loaded
      rw [Function.update_apply] at loaded
      split at loaded
      case isTrue here =>
        subst here
        cases loaded
        refine ⟨rfl, fun key joined => ?_⟩
        obtain ⟨record, loaded, keyed⟩ := sound.loads.joinable key other (less key other joined)
        rw [found, Option.some_inj] at loaded
        rw [← keyed, ← loaded] at joined
        exact gone joined
      case isFalse differs =>
        obtain ⟨empty, detached⟩ := sound.clean other record loaded differs ended
        exact ⟨empty, fun key joined => detached key (less key other joined)⟩
    cases source : load.source with
    | none =>
      refine ⟨sound.accounted.congr rfl rfl fun owner key buffer => ?_,
        loads.shrinks ⟨rfl, rfl, rfl, rfl, less, fun _ _ => id⟩,
        fun other record loaded _ ended => clean other record loaded ended, sound.dated⟩
      refine (holds owner key buffer).trans (and_iff_left_of_imp fun holding among => ?_)
      cases among
      obtain ⟨record, loaded, _, held⟩ := holding
      rw [found, Option.some_inj] at loaded
      rw [← loaded, source] at held
      cases held
    | some buffer =>
      have holding : Holds state (.load flight) load.cacheKey buffer := ⟨load, found, rfl, source⟩
      have filled := sound.accounted.fill holding
      rw [insert_empty_eq] at filled
      exact ⟨filled.forget rfl rfl holds,
        loads.shrinks ⟨rfl, rfl, rfl, rfl, less, fun _ _ => id⟩,
        fun other record loaded _ ended => clean other record loaded ended,
        fun key entry present => dated_fill (sound.dated key entry present) _⟩

/-! ### Invalidation -/

theorem evict_eq (state : State) (cacheKey : String) (now : Int) :
    ∃ generations expiryTimer timers, state.evict cacheKey now =
      { state.wipe ((state.entries.get cacheKey).map UserKeyCacheEntry.key) with
        entries := state.entries.delete cacheKey
        inflight := state.inflight.delete cacheKey
        generations, expiryTimer, timers } := by
  unfold State.evict
  simp only []
  generalize wiped : State.wipe _ ((state.entries.get cacheKey).map UserKeyCacheEntry.key) = filled
  obtain ⟨expiryTimer, timers, same⟩ := rescheduleExpiry_eq
    { filled with entries := filled.entries.delete cacheKey } now
  rw [same, ← wiped]
  cases state.entries.get cacheKey with
  | none => exact ⟨_, _, _, rfl⟩
  | some entry => exact ⟨_, _, _, rfl⟩

theorem shrinks_evict (state : State) (cacheKey : String) (now : Int) :
    Shrinks state (state.evict cacheKey now) := by
  obtain ⟨generations, expiryTimer, timers, same⟩ := evict_eq state cacheKey now
  rw [same]
  have gone : ∀ key joined, (state.inflight.delete cacheKey).get key = some joined →
      state.inflight.get key = some joined := by
    intro key joined present
    rw [OrderedMap.get_delete] at present
    split at present
    case isTrue => cases present
    case isFalse => exact present
  cases state.entries.get cacheKey with
  | none => exact ⟨rfl, rfl, rfl, rfl, gone, fun _ _ => get_of_delete⟩
  | some entry => exact ⟨rfl, rfl, rfl, rfl, gone, fun _ _ => get_of_delete⟩

theorem evict_entries (state : State) (cacheKey : String) (now : Int) :
    (state.evict cacheKey now).entries = state.entries.delete cacheKey := by
  obtain ⟨_, _, _, same⟩ := evict_eq state cacheKey now
  rw [same]

theorem evict_inflight (state : State) (cacheKey : String) (now : Int) :
    (state.evict cacheKey now).inflight = state.inflight.delete cacheKey := by
  obtain ⟨_, _, _, same⟩ := evict_eq state cacheKey now
  rw [same]

theorem Sound.evict (sound : Sound options moved state) (cacheKey : String) (now : Int) :
    Sound options moved (state.evict cacheKey now) := by
  have less := shrinks_evict state cacheKey now
  obtain ⟨generations, expiryTimer, timers, same⟩ := evict_eq state cacheKey now
  have buffers := congrArg State.buffers same
  have made := congrArg State.nextBuffer same
  cases found : state.entries.get cacheKey with
  | none =>
    rw [found] at buffers made
    refine ⟨sound.accounted.congr buffers made fun owner key buffer => ?_,
      sound.loads.shrinks less, sound.clean.shrinks less, fun key entry present => ?_⟩
    · refine (holds_delete (evict_entries state cacheKey now) less.flights less.calls owner key
        buffer).trans (and_iff_left_of_imp fun holding among => ?_)
      cases among
      obtain ⟨rfl, entry, present, _⟩ := holding
      rw [found] at present
      cases present
    · rw [show (state.evict cacheKey now).buffers = state.buffers from buffers]
      exact sound.dated key entry (less.entries key entry present)
  | some entry =>
    rw [found] at buffers made
    exact sound.delete found buffers made (evict_entries state cacheKey now) less

theorem foldl_wipe (passed : List (String × UserKeyCacheEntry)) {wiped : Set Owner}
    (accounted : Accounted wiped state)
    (present : ∀ entry ∈ passed, state.entries.get entry.1 = some entry.2) :
    ∃ generations buffers, (passed.foldl (fun state entry =>
        { state with
          generations := state.generations.set entry.1 (state.generation entry.1 + 1) }.fill
            entry.2.key) state) = { state with generations, buffers } ∧
      Accounted (wiped ∪ {owner | ∃ entry ∈ passed, owner = .entry entry.1})
        { state with generations, buffers } := by
  induction passed generalizing state wiped with
  | nil =>
    refine ⟨_, _, rfl, ?_⟩
    have none : {owner : Owner | ∃ entry ∈ ([] : List (String × UserKeyCacheEntry)),
        owner = .entry entry.1} = ∅ := Set.eq_empty_of_forall_notMem fun owner among => by
      obtain ⟨_, within, _⟩ := among
      exact absurd within List.not_mem_nil
    rw [none, Set.union_empty]
    exact accounted
  | cons head rest ih =>
    have filled : Accounted (insert (.entry head.1) wiped)
        ({ state with
          generations := state.generations.set head.1 (state.generation head.1 + 1) }.fill
            head.2.key) := by
      have raised : Accounted wiped { state with
          generations := state.generations.set head.1 (state.generation head.1 + 1) } :=
        accounted.congr rfl rfl fun _ _ _ => Iff.rfl
      have holding : Holds state (.entry head.1) head.1 head.2.key :=
        ⟨rfl, head.2, present head List.mem_cons_self, rfl⟩
      exact raised.fill holding
    obtain ⟨generations, buffers, same, kept⟩ := ih filled fun entry among =>
      present entry (List.mem_cons_of_mem head among)
    refine ⟨generations, buffers, same, ?_⟩
    have both : insert (Owner.entry head.1) wiped ∪ {owner | ∃ entry ∈ rest, owner = .entry entry.1}
        = wiped ∪ {owner | ∃ entry ∈ head :: rest, owner = .entry entry.1} := by
      ext owner
      simp only [Set.mem_union, Set.mem_insert_iff, Set.mem_ofPred_eq, List.mem_cons,
        exists_eq_or_imp]
      tauto
    rw [← both]
    exact kept

theorem Sound.clearEntries (sound : Sound options moved state) :
    Sound options moved state.clearEntries ∧ Shrinks state state.clearEntries ∧
    state.clearEntries.entries.entries = [] := by
  have empty : ∀ key entry, (OrderedMap.empty : OrderedMap String UserKeyCacheEntry).get key
      ≠ some entry := fun _ _ => nofun
  obtain ⟨generations, buffers, same, wiped⟩ := foldl_wipe state.entries.entries sound.accounted
    fun _ among => OrderedMap.get_eq_some.mpr among
  rw [Set.empty_union] at wiped
  have less : Shrinks state
      { state with entries := OrderedMap.empty, generations, buffers } :=
    ⟨rfl, rfl, rfl, rfl, fun _ _ => id, fun key entry found => absurd found (empty key entry)⟩
  unfold State.clearEntries
  rw [same]
  refine ⟨⟨wiped.forget rfl rfl fun owner key buffer => ?_, sound.loads.shrinks less,
    sound.clean.shrinks less, fun key entry found => absurd found (empty key entry)⟩, less, rfl⟩
  cases owner with
  | load => exact (and_iff_left (by rintro ⟨_, _, ⟨⟩⟩)).symm
  | call => exact (and_iff_left (by rintro ⟨_, _, ⟨⟩⟩)).symm
  | entry owned =>
    constructor
    · rintro ⟨_, entry, found, _⟩
      exact absurd found (empty key entry)
    · rintro ⟨⟨rfl, entry, found, _⟩, outside⟩
      exact absurd ⟨(owned, entry), OrderedMap.get_eq_some.mp found, rfl⟩ outside

/-- The second loop of `clear`: a load that can be joined is needed, so all that happens to it is
that it can be joined no more. -/
theorem foldl_detach (passed : List (String × Nat)) (sound : Sound options ∅ state) 
    (distinct : (passed.map Prod.fst).Nodup)
    (present : ∀ load ∈ passed, state.inflight.get load.1 = some load.2) :
    ∃ generations inflight, (passed.foldl (fun state load =>
        { state with
          generations := state.generations.set load.1 (state.generation load.1 + 1)
          inflight := state.inflight.delete load.1 }.cleanupLoad load.1 load.2) state)
        = { state with generations, inflight } ∧
      ∀ key flight, inflight.get key = some flight →
        state.inflight.get key = some flight ∧ key ∉ passed.map Prod.fst := by
  induction passed generalizing state with
  | nil => exact ⟨_, _, rfl, fun key flight found => ⟨found, List.not_mem_nil⟩⟩
  | cons head rest ih =>
    rw [List.map_cons, List.nodup_cons] at distinct
    have joined := present head List.mem_cons_self
    obtain ⟨load, found, keyed⟩ := sound.loads.joinable head.1 head.2 joined
    have needed : ¬ load.Over := fun isOver =>
      (sound.clean head.2 load found (Set.notMem_empty _) isOver).2 head.1 joined
    have gone : ∀ key flight, (state.inflight.delete head.1).get key = some flight →
        state.inflight.get key = some flight ∧ key ≠ head.1 := by
      intro key flight still
      rw [OrderedMap.get_delete] at still
      split at still
      case isTrue => cases still
      case isFalse differs => exact ⟨still, differs⟩
    have less : Shrinks state { state with
        generations := state.generations.set head.1 (state.generation head.1 + 1)
        inflight := state.inflight.delete head.1 } :=
      ⟨rfl, rfl, rfl, rfl, fun key flight still => (gone key flight still).1, fun _ _ => id⟩
    rw [List.foldl_cons, cleanupLoad_of_not_over (by exact found) needed]
    have detached : Sound options ∅ { state with
        generations := state.generations.set head.1 (state.generation head.1 + 1)
        inflight := state.inflight.delete head.1 } :=
      ⟨sound.accounted.congr rfl rfl fun _ _ _ => Iff.rfl, sound.loads.shrinks less,
        sound.clean.shrinks less, sound.dated⟩
    obtain ⟨generations, inflight, same, left⟩ := ih detached distinct.2 fun other among => by
      show (state.inflight.delete head.1).get other.1 = _
      rw [OrderedMap.get_delete, if_neg, present other (List.mem_cons_of_mem head among)]
      exact fun same => distinct.1 (same ▸ List.mem_map_of_mem among)
    refine ⟨generations, inflight, same, fun key flight still => ?_⟩
    obtain ⟨middle, outside⟩ := left key flight still
    obtain ⟨before, differs⟩ := gone key flight middle
    refine ⟨before, fun among => ?_⟩
    rw [List.map_cons, List.mem_cons] at among
    exact among.elim differs outside

theorem Sound.clear (sound : Sound options ∅ state) :
    Sound options ∅ state.clear ∧ Shrinks state state.clear ∧
    state.clear.entries.entries = [] ∧
    ∀ key flight, state.clear.inflight.get key ≠ some flight := by
  obtain ⟨wiped, less, empty⟩ := sound.clearEntries
  obtain ⟨generations, inflight, same, left⟩ := foldl_detach state.clearEntries.inflight.entries
    wiped state.clearEntries.inflight.distinct fun _ among => OrderedMap.get_eq_some.mpr among
  have none : ∀ key flight, inflight.get key ≠ some flight := by
    intro key flight found
    obtain ⟨before, outside⟩ := left key flight found
    exact outside (List.mem_map_of_mem (f := Prod.fst) (OrderedMap.get_eq_some.mp before))
  unfold State.clear State.clearInflight
  rw [same]
  have gone : Shrinks state.clearEntries { state.clearEntries with inflight } :=
    ⟨rfl, rfl, rfl, rfl, fun key flight found => absurd found (none key flight), fun _ _ => id⟩
  refine ⟨⟨wiped.accounted.congr rfl rfl fun _ _ _ => Iff.rfl, wiped.loads.shrinks ?_,
    wiped.clean.shrinks ?_, wiped.dated⟩, less.trans ?_, empty, none⟩
  · exact ⟨rfl, rfl, rfl, rfl, gone.inflight, fun _ _ => id⟩
  · exact ⟨rfl, rfl, rfl, rfl, gone.inflight, fun _ _ => id⟩
  · exact ⟨rfl, rfl, rfl, rfl, gone.inflight, fun _ _ => id⟩

end Toard.Keys
