/-
**Data kept by key: insertion-ordered maps, and loops that treat each key by itself.**

* `OrderedMap`: a map that remembers in which order its keys were first set. Setting a key it has
  replaces the value in place; its keys are distinct by construction.
* **`foldl_keyed`**: a loop over distinct keys whose body touches only what belongs to its own
  key does to each key what the body does to it alone.
* `perm_of_filter_key_eq`: two lists with the same rows for each key are permutations of each
  other.
-/

import Mathlib.Data.List.Perm.Basic
import Mathlib.Data.List.Nodup

namespace Toard.Library

variable {κ α σ : Type*}

/-! ### Loops over keys -/

section Loops

variable {π : Type*} (related : σ → π → Prop) (body : σ → κ → σ) (key : κ)
  (other : ∀ state seen k, k ≠ key → related state seen → related (body state k) seen)

include other

theorem foldl_keyed_other {seen : π} {keys : List κ} (absent : key ∉ keys) {state : σ}
    (start : related state seen) : related (keys.foldl body state) seen := by
  induction keys generalizing state with
  | nil => exact start
  | cons head rest ih =>
    rw [List.mem_cons, not_or] at absent
    exact ih absent.2 (other state seen head (Ne.symm absent.1) start)

/-- **A loop whose body keeps to its key.** If the body moves what is related to `key` from `view`
to `moved` when it runs at `key`, and keeps any relation when it runs at another key, then the
loop does the same. -/
theorem foldl_keyed {view moved : π}
    (own : ∀ state, related state view → related (body state key) moved)
    {keys : List κ} (distinct : keys.Nodup) (among : key ∈ keys) {state : σ}
    (start : related state view) : related (keys.foldl body state) moved := by
  induction keys generalizing state with
  | nil => cases among
  | cons head rest ih =>
    rw [List.nodup_cons] at distinct
    by_cases here : head = key
    · subst here
      exact foldl_keyed_other related body head other distinct.1 (own state start)
    · have later : key ∈ rest := (List.mem_cons.mp among).resolve_left (Ne.symm here)
      exact ih distinct.2 later (other state view head here start)

end Loops

variable [DecidableEq κ]

theorem perm_of_filter_key_eq [DecidableEq α] (key : α → κ) {left right : List α}
    (same : ∀ k, (left.filter fun row => key row = k) = right.filter fun row => key row = k) :
    left.Perm right := by
  refine List.perm_iff_count.mpr fun row => ?_
  have counts : ∀ rows : List α,
      rows.count row = (rows.filter fun other => key other = key row).count row := by
    intro rows
    rw [List.count_filter (by simp)]
  rw [counts left, counts right, same]

theorem filter_filterMap_key {β : Type*} {keyOf : α → κ} {keyOf' : β → κ} {f : α → Option β}
    (keeps : ∀ a b, f a = some b → keyOf' b = keyOf a) (key : κ) (values : List α) :
    ((values.filterMap f).filter fun value => keyOf' value = key)
      = (values.filter fun value => keyOf value = key).filterMap f := by
  induction values with
  | nil => rfl
  | cons head rest ih =>
    cases made : f head with
    | none =>
      rw [List.filterMap_cons_none made, ih, List.filter_cons]
      split
      case isTrue => rw [List.filterMap_cons_none made]
      case isFalse => rfl
    | some value =>
      rw [List.filterMap_cons_some made, List.filter_cons, List.filter_cons, keeps head value made,
        ih]
      split
      case isTrue => rw [List.filterMap_cons_some made]
      case isFalse => rfl

/-! ### Maps in insertion order -/

/-- A map that remembers the order in which its keys were first set. -/
structure OrderedMap (κ α : Type*) where
  entries : List (κ × α)
  distinct : (entries.map Prod.fst).Nodup
deriving DecidableEq

namespace OrderedMap

def empty : OrderedMap κ α := ⟨[], List.nodup_nil⟩

/-- The value of a key. -/
def get (map : OrderedMap κ α) (key : κ) : Option α :=
  (map.entries.find? fun entry => entry.1 = key).map Prod.snd

/-- The values, in the order of their keys. -/
def values (map : OrderedMap κ α) : List α := map.entries.map Prod.snd

/-- The map with each value rewritten. -/
def mapValues (map : OrderedMap κ α) (f : α → α) : OrderedMap κ α where
  entries := map.entries.map fun entry => (entry.1, f entry.2)
  distinct := by
    rw [List.map_map]
    exact map.distinct

/-- The map without a key. -/
def delete (map : OrderedMap κ α) (key : κ) : OrderedMap κ α where
  entries := map.entries.filter fun entry => entry.1 ≠ key
  distinct := map.distinct.sublist (List.filter_sublist.map Prod.fst)

/-- The map of the keys that are kept. -/
def filterKeys (map : OrderedMap κ α) (keep : κ → Bool) : OrderedMap κ α where
  entries := map.entries.filter fun entry => keep entry.1
  distinct := map.distinct.sublist (List.filter_sublist.map Prod.fst)

/-- The entries with a key set: in place if the list has it, else at the end. -/
def setEntries (entries : List (κ × α)) (key : κ) (value : α) : List (κ × α) :=
  if key ∈ entries.map Prod.fst then
    entries.map fun entry => if entry.1 = key then (key, value) else entry
  else
    entries ++ [(key, value)]

theorem setEntries_keys (entries : List (κ × α)) (key : κ) (value : α) :
    (setEntries entries key value).map Prod.fst
      = if key ∈ entries.map Prod.fst then entries.map Prod.fst
        else entries.map Prod.fst ++ [key] := by
  unfold setEntries
  split
  case isTrue =>
    rw [List.map_map]
    refine List.map_congr_left fun entry _ => ?_
    show (if entry.1 = key then (key, value) else entry).1 = entry.1
    split
    case isTrue same => exact same.symm
    case isFalse => rfl
  case isFalse => rw [List.map_append, List.map_cons, List.map_nil]

/-- The map with a key set. -/
def set (map : OrderedMap κ α) (key : κ) (value : α) : OrderedMap κ α where
  entries := setEntries map.entries key value
  distinct := by
    rw [setEntries_keys]
    split
    case isTrue => exact map.distinct
    case isFalse absent =>
      exact List.nodup_append.mpr ⟨map.distinct, List.nodup_singleton key, fun k present other
        last => by rw [List.mem_singleton.mp last]; rintro rfl; exact absent present⟩

@[simp] theorem get_empty (key : κ) : (empty : OrderedMap κ α).get key = none := rfl

theorem get_eq_some {map : OrderedMap κ α} {key : κ} {value : α} :
    map.get key = some value ↔ (key, value) ∈ map.entries := by
  obtain ⟨entries, distinct⟩ := map
  show (entries.find? fun entry => entry.1 = key).map Prod.snd = some value ↔ _
  induction entries with
  | nil => simp
  | cons head rest ih =>
    rw [List.map_cons, List.nodup_cons] at distinct
    by_cases here : head.1 = key
    · rw [List.find?_cons_of_pos (by simpa using here), Option.map_some, Option.some_inj,
        List.mem_cons]
      constructor
      · rintro rfl
        exact .inl (by rw [← here])
      · rintro (same | later)
        · rw [← same]
        · exact absurd (here ▸ List.mem_map_of_mem (f := Prod.fst) later) distinct.1
    · rw [List.find?_cons_of_neg (by simpa using here), ih distinct.2, List.mem_cons]
      refine ⟨.inr, fun found => found.resolve_left ?_⟩
      rintro rfl
      exact here rfl

theorem get_mapValues (map : OrderedMap κ α) (f : α → α) (key : κ) :
    (map.mapValues f).get key = (map.get key).map f := by
  unfold get mapValues
  rw [List.find?_map, Option.map_map, Option.map_map]
  rfl

theorem get_delete (map : OrderedMap κ α) (key k : κ) :
    (map.delete key).get k = if k = key then none else map.get k := by
  apply Option.ext
  intro value
  rw [get_eq_some]
  show (k, value) ∈ map.entries.filter (fun entry => entry.1 ≠ key) ↔ _
  by_cases here : k = key <;> simp [here, get_eq_some]

theorem get_filterKeys (map : OrderedMap κ α) (keep : κ → Bool) (key : κ) :
    (map.filterKeys keep).get key = if keep key then map.get key else none := by
  apply Option.ext
  intro value
  rw [get_eq_some]
  show (key, value) ∈ map.entries.filter (fun entry => keep entry.1) ↔ _
  by_cases here : keep key <;> simp [here, get_eq_some]

theorem get_set (map : OrderedMap κ α) (key : κ) (value : α) (k : κ) :
    (map.set key value).get k = if k = key then some value else map.get k := by
  apply Option.ext
  intro found
  rw [get_eq_some]
  show (k, found) ∈ setEntries map.entries key value ↔ _
  unfold setEntries
  by_cases present : key ∈ map.entries.map Prod.fst
  · rw [if_pos present, List.mem_map]
    by_cases here : k = key
    · subst here
      rw [if_pos rfl, Option.some_inj]
      obtain ⟨entry, among, same⟩ := List.mem_map.mp present
      constructor
      · rintro ⟨other, _, made⟩
        split at made
        case isTrue => exact (Prod.mk.inj made).2
        case isFalse differs => exact absurd (congrArg Prod.fst made) differs
      · rintro rfl
        exact ⟨entry, among, if_pos same⟩
    · rw [if_neg here, get_eq_some]
      constructor
      · rintro ⟨other, among, made⟩
        split at made
        case isTrue => exact absurd (Prod.mk.inj made).1.symm here
        case isFalse => exact made ▸ among
      · exact fun among => ⟨(k, found), among, if_neg here⟩
  · rw [if_neg present, List.mem_append, List.mem_singleton, Prod.mk.injEq]
    by_cases here : k = key
    · subst here
      rw [if_pos rfl, Option.some_inj]
      refine ⟨fun found => ?_, fun same => .inr ⟨rfl, same.symm⟩⟩
      rcases found with among | ⟨-, same⟩
      · exact absurd (List.mem_map_of_mem (f := Prod.fst) among) present
      · exact same.symm
    · rw [if_neg here, get_eq_some]
      exact ⟨fun found => found.resolve_right fun last => here last.1, .inl⟩

theorem values_filter (map : OrderedMap κ α) (keyOf : α → κ)
    (keyed : ∀ key value, map.get key = some value → keyOf value = key) (key : κ) :
    (map.values.filter fun value => keyOf value = key) = (map.get key).toList := by
  obtain ⟨entries, distinct⟩ := map
  show ((entries.map Prod.snd).filter fun value => keyOf value = key)
    = ((entries.find? fun entry => entry.1 = key).map Prod.snd).toList
  have carried : ∀ entry ∈ entries, keyOf entry.2 = entry.1 := fun entry among =>
    keyed entry.1 entry.2 (get_eq_some.mpr among)
  clear keyed
  induction entries with
  | nil => rfl
  | cons head rest ih =>
    rw [List.map_cons, List.nodup_cons] at distinct
    rw [List.map_cons, List.filter_cons, List.find?_cons]
    have headKey := carried head (List.mem_cons_self)
    have later := ih distinct.2 fun entry among => carried entry (List.mem_cons_of_mem _ among)
    by_cases here : head.1 = key
    · have gone : rest.find? (fun entry => entry.1 = key) = none := by
        refine List.find?_eq_none.mpr fun entry among same => distinct.1 ?_
        rw [here, ← of_decide_eq_true same]
        exact List.mem_map_of_mem among
      rw [gone] at later
      simp [headKey, here, later]
    · simpa [headKey, here] using later

end OrderedMap

end Toard.Library
