/-
**Sums over a merged table.**

* `sum_merged`: the sum over the latest rows is the sum over the keys of what a reader finds.
* `sum_merged_of_moved`: rows moved to other keys, one for one, leave the sum as it was.
-/

import Mathlib.Algebra.BigOperators.Group.Finset.Basic
import Toard.Library.Replacing

namespace Toard.Library

variable {ρ κ ν M : Type*} [AddCommMonoid M]

theorem sum_map_filterMap (measure : ρ → M) (found : κ → Option ρ) (keys : List κ) :
    ((keys.filterMap found).map measure).sum
      = (keys.map fun k => ((found k).map measure).getD 0).sum := by
  induction keys with
  | nil => rfl
  | cons k rest ih =>
    cases here : found k with
    | none => simp [here, ih]
    | some row => simp [here, ih]

variable [DecidableEq κ] [LinearOrder ν] (key : ρ → κ) (version : ρ → ν) (measure : ρ → M)

theorem sum_merged (rows : List ρ) {keys : Finset κ} (covered : ∀ row ∈ rows, key row ∈ keys) :
    ((merged key version rows).map measure).sum
      = ∑ k ∈ keys, ((lookup key version rows k).map measure).getD 0 := by
  have own : (rows.map key).dedup.toFinset ⊆ keys := by
    intro k among
    obtain ⟨row, rowAmong, rfl⟩ := List.mem_map.mp (List.mem_dedup.mp (List.mem_toFinset.mp among))
    exact covered row rowAmong
  rw [merged, sum_map_filterMap, ← List.sum_toFinset _ (List.nodup_dedup _)]
  refine Finset.sum_subset own fun k _ absent => ?_
  have none : lookup key version rows k = none := by
    refine (lookup_eq_none key version).mpr fun row among same => absent ?_
    exact List.mem_toFinset.mpr (List.mem_dedup.mpr (List.mem_map.mpr ⟨row, among, same⟩))
  rw [none]
  rfl

/-- **Moved rows.** If what a reader finds under a key after is what was found before under the
key that `moved` pairs it with, the sum is the same. -/
theorem sum_merged_of_moved {before after : List ρ} {moved : κ → κ}
    (paired : Function.Involutive moved)
    (same : ∀ k, (lookup key version after (moved k)).map measure
      = (lookup key version before k).map measure) :
    ((merged key version after).map measure).sum = ((merged key version before).map measure).sum := by
  classical
  -- All keys of the rows before, and the partners of those after.
  let keys := (before.map key).toFinset ∪ ((after.map key).toFinset).image moved
  have coversBefore : ∀ row ∈ before, key row ∈ keys := fun row among =>
    Finset.mem_union_left _ (List.mem_toFinset.mpr (List.mem_map_of_mem among))
  have coversAfter : ∀ row ∈ after, key row ∈ keys.image moved := by
    intro row among
    refine Finset.mem_image.mpr ⟨moved (key row), Finset.mem_union_right _ ?_, paired (key row)⟩
    exact Finset.mem_image_of_mem _ (List.mem_toFinset.mpr (List.mem_map_of_mem among))
  rw [sum_merged key version measure before coversBefore,
    sum_merged key version measure after coversAfter,
    Finset.sum_image fun _ _ _ _ equal => paired.injective equal]
  exact Finset.sum_congr rfl fun k _ => by rw [same k]

end Toard.Library
