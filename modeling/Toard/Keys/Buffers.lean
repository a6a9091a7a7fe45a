/-
**Who holds each buffer of the user key cache.**

A buffer is made for one owner (a load, an entry or a call) and is never handed on: others get a
copy. So the books are simple: a buffer is held by the owner that it was made for, with the bytes
that it was made with, or it is wiped.
-/

import Toard.Keys.UserKeyCache
import Mathlib.Data.Set.Insert

namespace Toard.Keys

open Toard.Library (OrderedMap)

/-- The owner has the buffer, as a key of `cacheKey`. -/
def Holds (state : State) : Owner → String → Nat → Prop
  | .load flight, cacheKey, buffer => ∃ load, state.flights flight = some load ∧
      load.cacheKey = cacheKey ∧ load.source = some buffer
  | .entry owned, cacheKey, buffer => owned = cacheKey ∧
      ∃ entry, state.entries.get cacheKey = some entry ∧ entry.key = buffer
  | .call call, cacheKey, buffer => state.calls call = .running cacheKey buffer

theorem Holds.unique {state : State} {owner : Owner} {cacheKey other : String} {buffer also : Nat}
    (first : Holds state owner cacheKey buffer) (second : Holds state owner other also) :
    cacheKey = other ∧ buffer = also := by
  cases owner with
  | load flight =>
    obtain ⟨load, found, rfl, source⟩ := first
    obtain ⟨again, foundAgain, rfl, sourceAgain⟩ := second
    rw [found, Option.some_inj] at foundAgain
    subst foundAgain
    exact ⟨rfl, Option.some_inj.mp (source.symm.trans sourceAgain)⟩
  | entry owned =>
    obtain ⟨rfl, entry, found, rfl⟩ := first
    obtain ⟨rfl, again, foundAgain, rfl⟩ := second
    rw [found, Option.some_inj] at foundAgain
    exact ⟨rfl, congrArg UserKeyCacheEntry.key foundAgain⟩
  | call call =>
    exact Call.running.inj (Eq.trans (Eq.symm first) second)

def Returned (state : State) (cacheKey : String) (bytes : List UInt8) : Prop :=
  bytes.length = USER_KEY_LENGTH ∧ ∃ flight buffer cell, state.buffers buffer = some cell ∧
    cell.owner = .load flight ∧ cell.cacheKey = cacheKey ∧ cell.original = bytes

/-- The books of the buffers, while `wiped` still hold what is wiped already. -/
structure Accounted (wiped : Set Owner) (state : State) : Prop where
  unmade : ∀ buffer, state.nextBuffer ≤ buffer → state.buffers buffer = none
  held : ∀ owner cacheKey buffer, Holds state owner cacheKey buffer → ∃ cell,
    state.buffers buffer = some cell ∧ cell.owner = owner ∧ cell.cacheKey = cacheKey ∧
    Returned state cacheKey cell.original ∧
    (owner ∈ wiped → cell.Zeroed) ∧ (owner ∉ wiped → cell.bytes = cell.original)
  rest : ∀ buffer cell, state.buffers buffer = some cell →
    Holds state cell.owner cell.cacheKey buffer ∨ cell.Zeroed

theorem Cell.zeroed_fill (cell : Cell) : cell.fill.Zeroed := fun _ among =>
  (List.mem_replicate.mp among).2

theorem fill_apply (state : State) (buffer other : Nat) :
    (state.fill buffer).buffers other = if other = buffer then (state.buffers buffer).map Cell.fill
      else state.buffers other := Function.update_apply _ _ _ _

theorem make_apply (state : State) (owner : Owner) (cacheKey : String) (now : Int)
    (bytes : List UInt8) (buffer : Nat) :
    (state.make owner cacheKey now bytes).buffers buffer = if buffer = state.nextBuffer then
      some { bytes, original := bytes, owner, cacheKey, madeAt := now }
      else state.buffers buffer := Function.update_apply _ _ _ _

theorem Returned.fill {state : State} {cacheKey : String} {bytes : List UInt8}
    (returned : Returned state cacheKey bytes) (filled : Nat) :
    Returned (state.fill filled) cacheKey bytes := by
  obtain ⟨length, flight, buffer, cell, found, owner, key, same⟩ := returned
  refine ⟨length, flight, buffer, ?_⟩
  by_cases here : buffer = filled
  · subst here
    exact ⟨cell.fill, by rw [fill_apply, if_pos rfl, found, Option.map_some], owner, key, same⟩
  · exact ⟨cell, by rw [fill_apply, if_neg here, found], owner, key, same⟩

theorem Returned.make {wiped : Set Owner} {state : State} (accounted : Accounted wiped state)
    {cacheKey : String} {bytes : List UInt8} (returned : Returned state cacheKey bytes)
    (owner : Owner) (key : String) (now : Int) (content : List UInt8) :
    Returned (state.make owner key now content) cacheKey bytes := by
  obtain ⟨length, flight, buffer, cell, found, held, keyed, same⟩ := returned
  refine ⟨length, flight, buffer, cell, ?_, held, keyed, same⟩
  rw [make_apply, if_neg, found]
  rintro rfl
  rw [accounted.unmade _ (le_refl _)] at found
  cases found

namespace Accounted

variable {wiped : Set Owner} {state after : State}

theorem congr (accounted : Accounted wiped state) (buffers : after.buffers = state.buffers)
    (made : after.nextBuffer = state.nextBuffer)
    (holds : ∀ owner cacheKey buffer, Holds after owner cacheKey buffer
      ↔ Holds state owner cacheKey buffer) : Accounted wiped after where
  unmade buffer beyond := by
    rw [buffers]
    exact accounted.unmade buffer (made ▸ beyond)
  held owner cacheKey buffer holding := by
    unfold Returned
    rw [buffers]
    exact accounted.held owner cacheKey buffer ((holds _ _ _).mp holding)
  rest buffer cell found := by
    rw [buffers] at found
    exact (accounted.rest buffer cell found).imp_left (holds _ _ _).mpr

theorem fill (accounted : Accounted wiped state) {owner : Owner} {cacheKey : String}
    {buffer : Nat} (holding : Holds state owner cacheKey buffer) :
    Accounted (insert owner wiped) (state.fill buffer) where
  unmade other beyond := by
    rw [fill_apply]
    split
    case isTrue same => rw [← same, accounted.unmade other beyond, Option.map_none]
    case isFalse => exact accounted.unmade other beyond
  held other key at' holds := by
    obtain ⟨cell, found, owned, keyed, returned, zeroed, kept⟩ := accounted.held other key at' holds
    by_cases here : at' = buffer
    · subst here
      obtain ⟨_, foundAgain, ownedAgain, _⟩ := accounted.held _ _ _ holding
      rw [found, Option.some_inj] at foundAgain
      subst foundAgain
      refine ⟨cell.fill, by rw [fill_apply, if_pos rfl, found, Option.map_some], owned, keyed,
        returned.fill at', fun _ => cell.zeroed_fill, fun outside => absurd ?_ outside⟩
      exact .inl (owned.symm.trans ownedAgain)
    · refine ⟨cell, by rw [fill_apply, if_neg here, found], owned, keyed, returned.fill buffer,
        fun among => zeroed (among.resolve_left ?_), fun outside => kept fun among =>
          outside (.inr among)⟩
      rintro rfl
      exact here (holds.unique holding).2
  rest other cell found := by
    rw [fill_apply] at found
    split at found
    case isTrue same =>
      obtain ⟨before, _, rfl⟩ := Option.map_eq_some_iff.mp found
      exact .inr before.zeroed_fill
    case isFalse => exact accounted.rest other cell found

theorem forget (accounted : Accounted wiped state) (buffers : after.buffers = state.buffers)
    (made : after.nextBuffer = state.nextBuffer)
    (holds : ∀ owner cacheKey buffer, Holds after owner cacheKey buffer
      ↔ Holds state owner cacheKey buffer ∧ owner ∉ wiped) : Accounted ∅ after where
  unmade buffer beyond := by
    rw [buffers]
    exact accounted.unmade buffer (made ▸ beyond)
  held owner cacheKey buffer holding := by
    unfold Returned
    rw [buffers]
    obtain ⟨before, outside⟩ := (holds _ _ _).mp holding
    obtain ⟨cell, found, owned, keyed, returned, _, kept⟩ := accounted.held _ _ _ before
    exact ⟨cell, found, owned, keyed, returned, fun none => none.elim, fun _ => kept outside⟩
  rest buffer cell found := by
    rw [buffers] at found
    by_cases among : cell.owner ∈ wiped
    · rcases accounted.rest buffer cell found with holding | zeroed
      · obtain ⟨_, foundAgain, _, _, _, zeroed, _⟩ := accounted.held _ _ _ holding
        rw [found, Option.some_inj] at foundAgain
        exact .inr (foundAgain ▸ zeroed among)
      · exact .inr zeroed
    · exact (accounted.rest buffer cell found).imp_left fun holding => (holds _ _ _).mpr
        ⟨holding, among⟩

theorem adopt (accounted : Accounted ∅ state) (owner : Owner) (key : String) (now : Int)
    (bytes : List UInt8)
    (buffers : after.buffers = (state.make owner key now bytes).buffers)
    (made : after.nextBuffer = state.nextBuffer + 1)
    (returned : Returned (state.make owner key now bytes) key bytes)
    (holds : ∀ other cacheKey buffer, Holds after other cacheKey buffer
      ↔ Holds state other cacheKey buffer ∨
        (other = owner ∧ cacheKey = key ∧ buffer = state.nextBuffer)) : Accounted ∅ after where
  unmade buffer beyond := by
    rw [buffers, make_apply, if_neg (by omega)]
    exact accounted.unmade buffer (by omega)
  held other cacheKey buffer holding := by
    unfold Returned
    rw [buffers, make_apply]
    rcases (holds _ _ _).mp holding with before | ⟨rfl, rfl, rfl⟩
    · obtain ⟨cell, found, owned, keyed, known, _, kept⟩ := accounted.held _ _ _ before
      have older : buffer ≠ state.nextBuffer := by
        rintro rfl
        rw [accounted.unmade _ (le_refl _)] at found
        cases found
      rw [if_neg older]
      exact ⟨cell, found, owned, keyed, known.make accounted _ _ _ _, fun none => none.elim, kept⟩
    · rw [if_pos rfl]
      exact ⟨_, rfl, rfl, rfl, returned, fun none => none.elim, fun _ => rfl⟩
  rest buffer cell found := by
    rw [buffers, make_apply] at found
    split at found
    case isTrue here =>
      cases found
      exact .inl ((holds _ _ _).mpr (.inr ⟨rfl, rfl, here⟩))
    case isFalse =>
      exact (accounted.rest buffer cell found).imp_left fun before =>
        (holds _ _ _).mpr (.inl before)

theorem discard (accounted : Accounted ∅ state) (owner : Owner) (key : String) (now : Int)
    (bytes : List UInt8) :
    Accounted ∅ ((state.make owner key now bytes).fill state.nextBuffer) where
  unmade buffer beyond := by
    replace beyond : state.nextBuffer + 1 ≤ buffer := beyond
    rw [fill_apply, if_neg (by omega), make_apply, if_neg (by omega)]
    exact accounted.unmade buffer (by omega)
  held other cacheKey buffer holding := by
    obtain ⟨cell, found, owned, keyed, known, zeroed, kept⟩ := accounted.held _ _ _ holding
    have older : buffer ≠ state.nextBuffer := by
      rintro rfl
      rw [accounted.unmade _ (le_refl _)] at found
      cases found
    refine ⟨cell, ?_, owned, keyed, (known.make accounted _ _ _ _).fill _, zeroed, kept⟩
    rw [fill_apply, if_neg older, make_apply, if_neg older, found]
  rest buffer cell found := by
    rw [fill_apply] at found
    split at found
    case isTrue =>
      obtain ⟨before, _, rfl⟩ := Option.map_eq_some_iff.mp found
      exact .inr before.zeroed_fill
    case isFalse older =>
      rw [make_apply, if_neg older] at found
      exact accounted.rest buffer cell found

theorem bytesOf_eq (accounted : Accounted ∅ state) {owner : Owner} {cacheKey : String}
    {buffer : Nat} (holding : Holds state owner cacheKey buffer) :
    Returned state cacheKey (state.bytesOf buffer) := by
  obtain ⟨cell, found, _, _, returned, _, kept⟩ := accounted.held _ _ _ holding
  have same : state.bytesOf buffer = cell.original := by
    unfold State.bytesOf
    rw [found, Option.map_some, Option.getD_some, kept (Set.notMem_empty _)]
  rw [same]
  exact returned

end Accounted

end Toard.Keys
