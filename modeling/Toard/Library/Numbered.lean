/-
**Tables with numbered rows.**

A table whose key is given out by a counter: a new row takes the next number, rows go away, and no
number is used twice. `Numbered key rows last` says that the rows are listed in the order of their
keys and that `last` is at least every key given out.

* `Numbered.push`, `Numbered.filter`: inserting and deleting keep it.
* `Numbered.eq_of_key`: a key names one row.
* `Numbered.insertionSort_eq`: the rows of a query come out in the order of the table.
* `Numbered.lt_of_not_mem_take`: what a limit cuts off comes later than what it lets through.
-/

import Mathlib.Data.List.Pairwise
import Mathlib.Data.List.Sort

namespace Toard.Library

variable {Row : Type*} {key : Row → Nat} {rows : List Row} {last : Nat}

/-- Rows in increasing order of their keys, none past the last key given out. -/
structure Numbered (key : Row → Nat) (rows : List Row) (last : Nat) : Prop where
  increasing : rows.Pairwise fun left right => key left < key right
  bounded : ∀ row ∈ rows, key row ≤ last

namespace Numbered

theorem nil : Numbered key [] last :=
  ⟨.nil, fun _ member => by cases member⟩

theorem push (numbered : Numbered key rows last) {row : Row} (next : key row = last + 1) :
    Numbered key (rows ++ [row]) (last + 1) := by
  refine ⟨List.pairwise_append.mpr ⟨numbered.increasing, List.pairwise_singleton _ _, ?_⟩, ?_⟩
  · intro old member new single
    rw [List.mem_singleton.mp single, next]
    exact Nat.lt_succ_of_le (numbered.bounded old member)
  · intro other member
    rcases List.mem_append.mp member with old | new
    · exact (numbered.bounded other old).trans (Nat.le_succ last)
    · rw [List.mem_singleton.mp new, next]

theorem filter (numbered : Numbered key rows last) (keep : Row → Bool) :
    Numbered key (rows.filter keep) last :=
  ⟨numbered.increasing.filter keep, fun row member =>
    numbered.bounded row (List.mem_filter.mp member).1⟩

theorem eq_of_key (numbered : Numbered key rows last) {row other : Row} (member : row ∈ rows)
    (present : other ∈ rows) (same : key row = key other) : row = other := by
  have injective : rows.Pairwise fun left right => key left = key right → left = right :=
    numbered.increasing.imp fun less equal => absurd equal (Nat.ne_of_lt less)
  have : Std.Symm fun left right : Row => key left = key right → left = right :=
    ⟨fun _ _ implies equal => (implies equal.symm).symm⟩
  exact injective.forall_of_forall (fun _ _ _ => rfl) member present same

theorem insertionSort_eq (numbered : Numbered key rows last) :
    rows.insertionSort (fun left right => key left ≤ key right) = rows :=
  (numbered.increasing.imp Nat.le_of_lt).insertionSort_eq

theorem lt_of_not_mem_take (numbered : Numbered key rows last) {limit : Nat} {taken row : Row}
    (early : taken ∈ rows.take limit) (member : row ∈ rows) (cut : row ∉ rows.take limit) :
    key taken < key row := by
  have late : row ∈ rows.drop limit := by
    rw [← List.take_append_drop limit rows] at member
    exact (List.mem_append.mp member).resolve_left cut
  have split := numbered.increasing
  rw [← List.take_append_drop limit rows, List.pairwise_append] at split
  exact split.2.2 taken early row late

end Numbered

end Toard.Library
