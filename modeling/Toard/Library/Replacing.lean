/-
**Tables whose rows replace the earlier rows of their key.**

* `replaceRows`: inserting rows into a table read through its keys: each row takes the place of
  the row with its key.
* `latest`: the row of the greatest version, the last inserted one among equals.
* `lookup`: what a reader of the merged table finds under a key.
* `lookup_append`: rows no older than the table decide the keys they have and leave the others.
* `merged`: the merged table, with the latest row of each key; `filter_merged`: it can be selected
  from by key before or after.
-/

import Mathlib.Data.List.Dedup
import Mathlib.Data.List.Induction
import Mathlib.Order.Lattice

namespace Toard.Library

variable {ρ κ ν : Type*} [DecidableEq κ] (key : ρ → κ)

/-! ### Rows replaced by key -/

/-- Insert a row in the place of the row with its key. -/
def replaceRow (rows : List ρ) (row : ρ) : List ρ :=
  rows.filter (fun other => key other ≠ key row) ++ [row]

/-- Insert rows one by one. -/
def replaceRows (rows added : List ρ) : List ρ :=
  added.foldl (replaceRow key) rows

theorem replaceRows_cons (rows : List ρ) (row : ρ) (rest : List ρ) :
    replaceRows key rows (row :: rest) = replaceRows key (replaceRow key rows row) rest := rfl

theorem mem_replaceRow {rows : List ρ} {row other : ρ} (among : other ∈ replaceRow key rows row) :
    other ∈ rows ∨ other = row := by
  rw [replaceRow, List.mem_append, List.mem_singleton] at among
  exact among.imp_left fun kept => (List.mem_filter.mp kept).1

theorem mem_replaceRows {rows added : List ρ} {other : ρ}
    (among : other ∈ replaceRows key rows added) : other ∈ rows ∨ other ∈ added := by
  induction added generalizing rows with
  | nil => exact Or.inl among
  | cons row rest ih =>
    rcases ih among with old | new
    · rcases mem_replaceRow key old with old | rfl
      · exact Or.inl old
      · exact Or.inr List.mem_cons_self
    · exact Or.inr (List.mem_cons_of_mem row new)

theorem new_or_kept_of_mem_replaceRows {rows added : List ρ} {other : ρ}
    (among : other ∈ replaceRows key rows added) :
    other ∈ added ∨ (other ∈ rows ∧ ∀ row ∈ added, key row ≠ key other) := by
  induction added generalizing rows with
  | nil => exact Or.inr ⟨among, fun row none => (nomatch none)⟩
  | cons row rest ih =>
    rcases ih among with new | ⟨kept, unreplaced⟩
    · exact Or.inl (List.mem_cons_of_mem row new)
    · rw [replaceRow, List.mem_append, List.mem_singleton] at kept
      rcases kept with old | rfl
      · obtain ⟨oldAmong, different⟩ := List.mem_filter.mp old
        refine Or.inr ⟨oldAmong, fun new newAmong => ?_⟩
        rcases List.mem_cons.mp newAmong with rfl | later
        · exact fun same => (of_decide_eq_true different) same.symm
        · exact unreplaced new later
      · exact Or.inl List.mem_cons_self

theorem key_mem_replaceRows {rows : List ρ} (added : List ρ) {k : κ} (known : k ∈ rows.map key) :
    k ∈ (replaceRows key rows added).map key := by
  induction added generalizing rows with
  | nil => exact known
  | cons row rest ih =>
    refine ih ?_
    rw [replaceRow, List.map_append, List.mem_append]
    by_cases same : k = key row
    · exact Or.inr (by simp [same])
    · obtain ⟨old, among, rfl⟩ := List.mem_map.mp known
      exact Or.inl (List.mem_map_of_mem (List.mem_filter.mpr ⟨among, by simpa using same⟩))

theorem nodup_replaceRow {rows : List ρ} (row : ρ) (distinct : (rows.map key).Nodup) :
    ((replaceRow key rows row).map key).Nodup := by
  rw [replaceRow, List.map_append, List.map_singleton, List.nodup_append]
  refine ⟨distinct.sublist (List.filter_sublist.map key), List.nodup_singleton _, ?_⟩
  intro k among other same
  obtain ⟨kept, keptAmong, rfl⟩ := List.mem_map.mp among
  rw [List.mem_singleton.mp same]
  simpa using (List.mem_filter.mp keptAmong).2

theorem nodup_replaceRows {rows : List ρ} (added : List ρ) (distinct : (rows.map key).Nodup) :
    ((replaceRows key rows added).map key).Nodup := by
  induction added generalizing rows with
  | nil => exact distinct
  | cons row rest ih => exact ih (nodup_replaceRow key row distinct)

/-- A selection that holds neither an inserted row nor a row that one of them replaces is left as
it is. -/
theorem filter_replaceRows (selects : ρ → Bool) {rows added : List ρ}
    (unselected : ∀ row ∈ added, selects row = false)
    (unreplaced : ∀ old ∈ rows, ∀ row ∈ added, key old = key row → selects old = false) :
    (replaceRows key rows added).filter selects = rows.filter selects := by
  induction added generalizing rows with
  | nil => rfl
  | cons row rest ih =>
    have head : selects row = false := unselected row List.mem_cons_self
    rw [replaceRows_cons, ih (fun other among => unselected other (List.mem_cons_of_mem row among))]
    · rw [replaceRow, List.filter_append, List.filter_filter, List.filter_cons_of_neg (by simp [head]),
        List.filter_nil, List.append_nil]
      refine List.filter_congr fun old among => ?_
      by_cases same : key old = key row
      · simp [same, unreplaced old among row List.mem_cons_self same]
      · simp [same]
    · intro old among other later same
      rcases mem_replaceRow key among with kept | rfl
      · exact unreplaced old kept other (List.mem_cons_of_mem row later) same
      · exact head

/-! ### Rows replaced by version -/

variable [LinearOrder ν] (version : ρ → ν)

/-- Of two rows the one of greater version; the later one of equals. -/
def newer (kept : Option ρ) (row : ρ) : Option ρ :=
  match kept with
  | none => some row
  | some old => if version old ≤ version row then some row else some old

/-- The row of the greatest version, and the last inserted one of these. -/
def latest (rows : List ρ) : Option ρ := rows.foldl (newer version) none

/-- The latest row of a key. -/
def lookup (rows : List ρ) (k : κ) : Option ρ :=
  latest version (rows.filter fun row => key row = k)

theorem foldl_newer_isSome (rows : List ρ) (kept : ρ) :
    (rows.foldl (newer version) (some kept)).isSome := by
  induction rows generalizing kept with
  | nil => rfl
  | cons row rest ih =>
    rw [List.foldl_cons, newer]
    split
    · exact ih row
    · exact ih kept

theorem latest_eq_none {rows : List ρ} : latest version rows = none ↔ rows = [] := by
  cases rows with
  | nil => simp [latest]
  | cons row rest =>
    have found := foldl_newer_isSome version rest row
    simp only [latest, List.foldl_cons, newer, reduceCtorEq, iff_false]
    exact Option.isSome_iff_ne_none.mp found

theorem mem_of_foldl_newer {rows : List ρ} {kept : Option ρ} {row : ρ}
    (found : rows.foldl (newer version) kept = some row) : row ∈ rows ∨ kept = some row := by
  induction rows generalizing kept with
  | nil => exact Or.inr found
  | cons head rest ih =>
    rcases ih found with later | now
    · exact Or.inl (List.mem_cons_of_mem head later)
    · cases kept with
      | none =>
        cases now
        exact Or.inl List.mem_cons_self
      | some old =>
        rw [newer] at now
        split at now
        · cases now
          exact Or.inl List.mem_cons_self
        · exact Or.inr now

theorem mem_of_latest {rows : List ρ} {row : ρ} (found : latest version rows = some row) :
    row ∈ rows :=
  (mem_of_foldl_newer version found).resolve_right (by simp)

theorem le_of_foldl_newer {rows : List ρ} {kept found : ρ}
    (folded : rows.foldl (newer version) (some kept) = some found) :
    version kept ≤ version found ∧ ∀ row ∈ rows, version row ≤ version found := by
  induction rows generalizing kept with
  | nil =>
    cases folded
    exact ⟨le_rfl, fun row among => absurd among List.not_mem_nil⟩
  | cons head rest ih =>
    rw [List.foldl_cons, newer] at folded
    split at folded
    · next notOlder =>
      obtain ⟨first, later⟩ := ih folded
      exact ⟨le_trans notOlder first, List.forall_mem_cons.mpr ⟨first, later⟩⟩
    · next older =>
      obtain ⟨first, later⟩ := ih folded
      exact ⟨first, List.forall_mem_cons.mpr ⟨le_trans (le_of_not_ge older) first, later⟩⟩

theorem le_latest {rows : List ρ} {row found : ρ} (among : row ∈ rows)
    (last : latest version rows = some found) : version row ≤ version found := by
  cases rows with
  | nil => cases among
  | cons head rest =>
    obtain ⟨first, later⟩ := @le_of_foldl_newer _ _ _ version rest head found last
    rcases List.mem_cons.mp among with rfl | inRest
    · exact first
    · exact later row inRest

theorem latest_append {rows added : List ρ}
    (notOlder : ∀ old ∈ rows, ∀ row ∈ added, version old ≤ version row) :
    latest version (rows ++ added) = (latest version added).or (latest version rows) := by
  cases added with
  | nil => simp [latest]
  | cons row rest =>
    have whole : latest version (rows ++ row :: rest)
        = rest.foldl (newer version) (newer version (latest version rows) row) := by
      simp [latest]
    have replaced : newer version (latest version rows) row = some row := by
      cases found : latest version rows with
      | none => rfl
      | some old =>
        exact if_pos (notOlder old (mem_of_latest version found) row List.mem_cons_self)
    have tail : latest version (row :: rest) = rest.foldl (newer version) (some row) := rfl
    obtain ⟨last, found⟩ := Option.isSome_iff_exists.mp (foldl_newer_isSome version rest row)
    rw [whole, replaced, tail, found]
    rfl

theorem lookup_eq_none {rows : List ρ} {k : κ} :
    lookup key version rows k = none ↔ ∀ row ∈ rows, key row ≠ k := by
  rw [lookup, latest_eq_none, List.filter_eq_nil_iff]
  simp

/-- **What an insert does to a lookup.** Rows no older than the table decide the keys they have and
leave the others. -/
theorem lookup_append {rows added : List ρ}
    (notOlder : ∀ old ∈ rows, ∀ row ∈ added, version old ≤ version row) (k : κ) :
    lookup key version (rows ++ added) k
      = (lookup key version added k).or (lookup key version rows k) := by
  rw [lookup, List.filter_append]
  exact latest_append version fun old oldAmong row among =>
    notOlder old (List.mem_filter.mp oldAmong).1 row (List.mem_filter.mp among).1

theorem latest_append_cases {rows added : List ρ} {row : ρ}
    (found : latest version (rows ++ added) = some row) :
    latest version rows = some row ∨ latest version added = some row := by
  induction added using List.reverseRecOn generalizing row with
  | nil => exact Or.inl (by simpa using found)
  | append_singleton added last ih =>
    have whole : ∀ front, latest version (front ++ [last]) = newer version (latest version front) last :=
      fun front => by simp [latest]
    rw [← List.append_assoc, whole] at found
    rw [whole]
    cases before : latest version (rows ++ added) with
    | none =>
      rw [latest_eq_none, List.append_eq_nil_iff] at before
      obtain ⟨rfl, rfl⟩ := before
      exact Or.inr found
    | some old =>
      rw [before, newer] at found
      split at found
      · -- The last row wins against the latest of all, and so against that of its own list.
        next notOlder =>
        cases found
        refine Or.inr ?_
        cases own : latest version added with
        | none => rfl
        | some kept =>
          rw [newer, if_pos]
          exact le_trans
            (le_latest version (List.mem_append_right rows (mem_of_latest version own)) before) notOlder
      · next older =>
        cases found
        refine (ih before).imp_right fun own => ?_
        rw [own, newer, if_neg older]

theorem lookup_append_cases {rows added : List ρ} {k : κ} {row : ρ}
    (found : lookup key version (rows ++ added) k = some row) :
    lookup key version rows k = some row ∨ lookup key version added k = some row := by
  rw [lookup, List.filter_append] at found
  exact latest_append_cases version found

theorem lookup_append_of_none {rows added : List ρ} {k : κ}
    (absent : ∀ row ∈ added, key row ≠ k) :
    lookup key version (rows ++ added) k = lookup key version rows k := by
  have none : added.filter (fun row => key row = k) = [] := by
    rw [List.filter_eq_nil_iff]
    exact fun row among => by simpa using absent row among
  rw [lookup, List.filter_append, none, List.append_nil]
  rfl

theorem lookup_append_ne_none {rows added : List ρ} {row : ρ} (among : row ∈ rows ∨ row ∈ added) :
    lookup key version (rows ++ added) (key row) ≠ none := by
  intro none
  exact (lookup_eq_none key version).mp none row (List.mem_append.mpr among) rfl

theorem lookup_filter_of_kept {rows : List ρ} {k : κ} {keep : ρ → Bool}
    (kept : ∀ row ∈ rows, key row = k → keep row) :
    lookup key version (rows.filter keep) k = lookup key version rows k := by
  rw [lookup, lookup, List.filter_filter]
  refine congrArg (latest version) (List.filter_congr fun row among => ?_)
  by_cases same : key row = k
  · simp [same, kept row among same]
  · simp [same]

theorem lookup_filter_of_removed {rows : List ρ} {k : κ} {keep : ρ → Bool}
    (removed : ∀ row ∈ rows, key row = k → keep row = false) :
    lookup key version (rows.filter keep) k = none := by
  refine (lookup_eq_none key version).mpr fun row among same => ?_
  obtain ⟨row_mem, keeps⟩ := List.mem_filter.mp among
  rw [removed row row_mem same] at keeps
  cases keeps

theorem lookup_map {keys : List κ} (distinct : keys.Nodup) (rowOf : κ → ρ)
    (own : ∀ k, key (rowOf k) = k) (k : κ) :
    lookup key version (keys.map rowOf) k = if k ∈ keys then some (rowOf k) else none := by
  have only : (keys.map rowOf).filter (fun row => key row = k)
      = (keys.filter fun other => other = k).map rowOf := by
    simp [List.filter_map, Function.comp_def, own]
  rw [lookup, only]
  by_cases among : k ∈ keys
  · rw [if_pos among, List.filter_eq, List.count_eq_one_of_mem distinct among]
    rfl
  · rw [if_neg among, List.filter_eq, List.count_eq_zero_of_not_mem among]
    rfl

theorem key_of_lookup {rows : List ρ} {k : κ} {row : ρ}
    (found : lookup key version rows k = some row) : row ∈ rows ∧ key row = k :=
  (List.mem_filter.mp (mem_of_latest version found)).imp_right of_decide_eq_true

/-! ### The merged table -/

/-- The latest row of each key. -/
def merged (rows : List ρ) : List ρ := (rows.map key).dedup.filterMap (lookup key version rows)

@[simp] theorem mem_merged {rows : List ρ} {row : ρ} :
    row ∈ merged key version rows ↔ lookup key version rows (key row) = some row := by
  rw [merged, List.mem_filterMap]
  constructor
  · rintro ⟨k, -, found⟩
    rwa [(key_of_lookup key version found).2]
  · intro found
    exact ⟨key row, List.mem_dedup.mpr (List.mem_map_of_mem (key_of_lookup key version found).1),
      found⟩

theorem nodup_merged (rows : List ρ) : ((merged key version rows).map key).Nodup := by
  rw [merged]
  have distinct := List.nodup_dedup (rows.map key)
  generalize (rows.map key).dedup = keys at distinct ⊢
  induction keys with
  | nil => exact List.nodup_nil
  | cons k rest ih =>
    obtain ⟨fresh, distinct⟩ := List.nodup_cons.mp distinct
    cases found : lookup key version rows k with
    | none =>
      rw [List.filterMap_cons_none found]
      exact ih distinct
    | some row =>
      rw [List.filterMap_cons_some found, List.map_cons, List.nodup_cons]
      refine ⟨fun again => fresh ?_, ih distinct⟩
      obtain ⟨other, otherAmong, same⟩ := List.mem_map.mp again
      obtain ⟨own, ownAmong, otherFound⟩ := List.mem_filterMap.mp otherAmong
      have owner : own = k := (key_of_lookup key version otherFound).2.symm.trans
        (same.trans (key_of_lookup key version found).2)
      exact owner ▸ ownAmong

theorem dedup_filter (keep : κ → Bool) (keys : List κ) :
    (keys.filter keep).dedup = keys.dedup.filter keep := by
  induction keys with
  | nil => rfl
  | cons k rest ih =>
    cases kept : keep k with
    | false =>
      rw [List.filter_cons_of_neg (by simp [kept]), ih, List.dedup_cons]
      split
      · rfl
      · rw [List.filter_cons_of_neg (by simp [kept])]
    | true =>
      rw [List.filter_cons_of_pos kept, List.dedup_cons, List.dedup_cons, ih]
      by_cases again : k ∈ rest
      · rw [if_pos again, if_pos (List.mem_filter.mpr ⟨again, kept⟩)]
      · rw [if_neg again, if_neg fun among => again (List.mem_filter.mp among).1,
          List.filter_cons_of_pos kept]

theorem filter_merged (keep : κ → Bool) (rows : List ρ) :
    (merged key version rows).filter (fun row => keep (key row))
      = merged key version (rows.filter fun row => keep (key row)) := by
  have keys : (rows.filter fun row => keep (key row)).map key = (rows.map key).filter keep := by
    rw [List.filter_map]
    rfl
  rw [merged, merged, keys, dedup_filter, List.filter_filterMap, List.filterMap_filter]
  refine List.filterMap_congr fun k _ => ?_
  cases found : lookup key version rows k with
  | none =>
    split
    · next kept =>
      rw [lookup_filter_of_kept key version fun row _ own => own ▸ kept, found]
      rfl
    · rfl
  | some row =>
    have own := (key_of_lookup key version found).2
    split
    · next kept =>
      rw [lookup_filter_of_kept key version fun row _ own => own ▸ kept, found,
        Option.filter_some_pos (own ▸ kept)]
    · next dropped =>
      rw [Option.filter_some_neg (own ▸ Bool.eq_false_iff.mpr dropped)]

end Toard.Library
