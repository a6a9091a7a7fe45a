/-
**A list in which a record takes the place of the one with its name.**

Records are added at the end of a list. One whose name the list has is put where that one is; a map
has the places of the names.

* `Indexed.Sound`: the map has the place of each name.
* **`Indexed.mem_putAll`**: a record is in the list if and only if no later one replaced it.
-/

import Mathlib.Data.List.Induction
import Toard.Library.Keyed

namespace Toard.Library

variable {α N : Type*}

namespace Indexed

/-! ### The latest records -/

section Latest

variable (name : α → Option N)

/-- A record that takes the place of another one. -/
def Replaces (later earlier : α) : Prop := ∃ n, name later = some n ∧ name earlier = some n

/-- A record that no later one replaced. -/
def Latest (made : List α) (item : α) : Prop :=
  ∃ before after, made = before ++ item :: after ∧ ∀ later ∈ after, ¬ Replaces name later item

variable {name}

theorem Latest.mem {made : List α} {item : α} (latest : Latest name made item) : item ∈ made := by
  obtain ⟨before, after, rfl, -⟩ := latest
  simp

theorem latest_of_nameless {made : List α} {item : α} (among : item ∈ made)
    (nameless : name item = none) : Latest name made item := by
  obtain ⟨before, after, rfl⟩ := List.append_of_mem among
  refine ⟨before, after, rfl, ?_⟩
  rintro later - ⟨n, -, named⟩
  rw [nameless] at named
  cases named

theorem exists_latest {made : List α} {item : α} {n : N} (among : item ∈ made)
    (named : name item = some n) : ∃ last, Latest name made last ∧ name last = some n := by
  induction made generalizing item with
  | nil => cases among
  | cons first rest ih =>
    by_cases later : ∃ other ∈ rest, name other = some n
    · obtain ⟨other, inside, otherName⟩ := later
      obtain ⟨last, ⟨before, after, rfl, stays⟩, lastName⟩ := ih inside otherName
      exact ⟨last, ⟨first :: before, after, rfl, stays⟩, lastName⟩
    · rcases List.mem_cons.mp among with rfl | inside
      · refine ⟨item, ⟨[], rest, rfl, ?_⟩, named⟩
        rintro other inside ⟨n', otherName, itemName⟩
        exact later ⟨other, inside, otherName.trans (itemName.symm.trans named)⟩
      · exact absurd ⟨item, inside, named⟩ later

theorem latest_map {β : Type*} {f : β → α} {made : List β} {item : α} :
    Latest name (made.map f) item ↔ ∃ record, Latest (name ∘ f) made record ∧ f record = item := by
  constructor
  · rintro ⟨before, after, split, stays⟩
    obtain ⟨early, others, rfl, rfl, isMap⟩ := List.map_eq_append_iff.mp split
    obtain ⟨record, late, rfl, rfl, rfl⟩ := List.map_eq_cons_iff.mp isMap
    refine ⟨record, ⟨early, late, rfl, fun later inside => ?_⟩, rfl⟩
    exact stays (f later) (List.mem_map_of_mem inside)
  · rintro ⟨record, ⟨early, late, rfl, stays⟩, rfl⟩
    refine ⟨early.map f, late.map f, by simp, fun later inside => ?_⟩
    obtain ⟨other, isOther, rfl⟩ := List.mem_map.mp inside
    exact stays other isOther

end Latest

end Indexed

/-! ### The list -/

/-- Some records, and the places of the names. -/
structure Indexed (N α : Type*) where
  items : List α
  indexes : OrderedMap N Nat

namespace Indexed

variable [DecidableEq N]

def empty : Indexed N α := ⟨[], .empty⟩

section Names

variable (name : α → Option N)

/-- The list with a record: in the place of the one with its name, or at the end. -/
def put (indexed : Indexed N α) (item : α) : Indexed N α :=
  (name item).elim { indexed with items := indexed.items ++ [item] } fun n =>
    (indexed.indexes.get n).elim
      { items := indexed.items ++ [item]
        indexes := indexed.indexes.set n indexed.items.length }
      fun index => { indexed with items := indexed.items.set index item }

def putAll (indexed : Indexed N α) (made : List α) : Indexed N α := made.foldl (put name) indexed

/-- The map has the places of the names. -/
def Sound (indexed : Indexed N α) : Prop :=
  ∀ n index, indexed.indexes.get n = some index ↔ (indexed.items[index]?).bind name = some n

end Names

variable {name : α → Option N} {indexed : Indexed N α}

theorem putAll_append (made added : List α) :
    indexed.putAll name (made ++ added) = (indexed.putAll name made).putAll name added :=
  List.foldl_append

theorem sound_empty : (empty : Indexed N α).Sound name := by
  simp [Sound, empty]

theorem put_nameless (sound : indexed.Sound name) {item : α} (nameless : name item = none) :
    (indexed.put name item).Sound name ∧
      ∀ other, other ∈ (indexed.put name item).items ↔
        other = item ∨ other ∈ indexed.items ∧ ¬ Replaces name item other := by
  rw [put, nameless, Option.elim_none]
  constructor
  · intro n index
    rw [sound, List.getElem?_append]
    grind
  · simp [Replaces, nameless, or_comm]

theorem put_new (sound : indexed.Sound name) {item : α} {n : N} (named : name item = some n)
    (isNew : indexed.indexes.get n = none) :
    (indexed.put name item).Sound name ∧
      ∀ other, other ∈ (indexed.put name item).items ↔
        other = item ∨ other ∈ indexed.items ∧ ¬ Replaces name item other := by
  have absent (index : Nat) : (indexed.items[index]?).bind name ≠ some n := fun here => by
    rw [(sound n index).mpr here] at isNew
    cases isNew
  rw [put, named, Option.elim_some, isNew, Option.elim_none]
  constructor
  · intro other index
    rw [OrderedMap.get_set, List.getElem?_append]
    by_cases same : other = n
    · subst same
      rw [if_pos rfl, Option.some_inj]
      grind
    · rw [if_neg same, sound]
      grind
  · intro other
    have stays (among : other ∈ indexed.items) : ¬ Replaces name item other := by
      rintro ⟨n', itemName, otherName⟩
      obtain ⟨index, here⟩ := List.mem_iff_getElem?.mp among
      apply absent index
      rw [here, Option.bind_some, otherName, ← itemName, named]
    rw [List.mem_append, List.mem_singleton, or_comm]
    exact or_congr_right ⟨fun among => ⟨among, stays among⟩, And.left⟩

theorem put_known (sound : indexed.Sound name) {item : α} {n : N} (named : name item = some n)
    {index : Nat} (known : indexed.indexes.get n = some index) :
    (indexed.put name item).Sound name ∧
      ∀ other, other ∈ (indexed.put name item).items ↔
        other = item ∨ other ∈ indexed.items ∧ ¬ Replaces name item other := by
  obtain ⟨old, here, oldName⟩ := Option.bind_eq_some_iff.mp ((sound n index).mp known)
  obtain ⟨inside, isOld⟩ := List.getElem?_eq_some_iff.mp here
  rw [put, named, Option.elim_some, known, Option.elim_some]
  constructor
  · intro other place
    rw [sound, List.getElem?_set]
    grind
  · intro other
    constructor
    · intro among
      obtain ⟨place, there⟩ := List.mem_iff_getElem?.mp among
      rw [List.getElem?_set] at there
      by_cases same : index = place
      · rw [if_pos same, if_pos inside] at there
        exact .inl (Option.some.inj there).symm
      · rw [if_neg same] at there
        refine .inr ⟨List.mem_of_getElem? there, ?_⟩
        rintro ⟨n', itemName, otherName⟩
        obtain rfl := Option.some.inj (named.symm.trans itemName)
        have placed := (sound n place).mpr (by rw [there, Option.bind_some, otherName])
        exact same (Option.some.inj (known.symm.trans placed))
    · rintro (rfl | ⟨among, stays⟩)
      · exact List.mem_set inside _
      · obtain ⟨place, there⟩ := List.mem_iff_getElem?.mp among
        refine List.mem_of_getElem? (i := place) ?_
        rw [List.getElem?_set]
        by_cases same : index = place
        · subst same
          obtain rfl := Option.some.inj (here.symm.trans there)
          exact absurd ⟨n, named, oldName⟩ stays
        · rw [if_neg same, there]

/-- **One record**: the map stays right, and the list has the record and what it did not replace. -/
theorem put_spec (sound : indexed.Sound name) (item : α) :
    (indexed.put name item).Sound name ∧
      ∀ other, other ∈ (indexed.put name item).items ↔
        other = item ∨ other ∈ indexed.items ∧ ¬ Replaces name item other := by
  cases named : name item with
  | none => exact put_nameless sound named
  | some n =>
    cases known : indexed.indexes.get n with
    | none => exact put_new sound named known
    | some index => exact put_known sound named known

/-- **All records**: those stay that no later one replaced. -/
theorem mem_putAll {made : List α} :
    ((empty : Indexed N α).putAll name made).Sound name ∧
      ∀ item, item ∈ ((empty : Indexed N α).putAll name made).items ↔ Latest name made item := by
  induction made using List.reverseRecOn with
  | nil => exact ⟨sound_empty, by simp [putAll, empty, Latest]⟩
  | append_singleton made last ih =>
    obtain ⟨sound, members⟩ := ih
    rw [putAll, List.foldl_append]
    obtain ⟨sound', members'⟩ := put_spec sound last
    refine ⟨sound', fun item => (members' item).trans ?_⟩
    rw [members]
    constructor
    · rintro (rfl | ⟨⟨before, after, rfl, stays⟩, notLast⟩)
      · exact ⟨made, [], rfl, by simp⟩
      · refine ⟨before, after ++ [last], by simp, fun later among => ?_⟩
        rcases List.mem_append.mp among with inside | isLast
        · exact stays later inside
        · rwa [List.mem_singleton.mp isLast]
    · rintro ⟨before, after, split, stays⟩
      rcases List.eq_nil_or_concat after with rfl | ⟨after, other, rfl⟩
      · exact .inl (List.append_inj_right' split rfl |> List.cons.inj |>.1.symm)
      · rw [List.concat_eq_append] at split stays
        rw [← List.cons_append, ← List.append_assoc] at split
        obtain ⟨rfl, same⟩ := List.append_inj' split rfl
        obtain rfl := (List.cons.inj same).1
        exact .inr ⟨⟨before, after, rfl, fun later inside =>
          stays later (List.mem_append_left _ inside)⟩, stays last (by simp)⟩

end Indexed

end Toard.Library
