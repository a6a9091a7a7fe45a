/-
**A list in pieces of one size (`slice::chunks`).**

Each piece has `size` elements, but for the last, which has what is left.

* `chunks_flatten`: the pieces are the list.
* `mem_chunks`: a piece is not empty, and not larger than `size`.
* `chunks_of_length_le`: a list that fits is one piece.
-/

import Mathlib.Data.List.Basic

namespace Toard.Library

variable {α : Type*}

def chunks (size : Nat) (values : List α) : List (List α) :=
  (List.range ((values.length + size - 1) / size)).map fun place =>
    (values.drop (place * size)).take size

theorem chunks_nil {size : Nat} (positive : 0 < size) : chunks size ([] : List α) = [] := by
  rw [chunks, List.length_nil, Nat.zero_add, Nat.div_eq_of_lt (by omega)]
  rfl

theorem chunks_eq_cons {size : Nat} (positive : 0 < size) {values : List α} (nonempty : values ≠ []) :
    chunks size values = values.take size :: chunks size (values.drop size) := by
  have length : 0 < values.length := List.length_pos_of_ne_nil nonempty
  have count : (values.length + size - 1) / size
      = ((values.drop size).length + size - 1) / size + 1 := by
    rw [List.length_drop]
    by_cases fits : values.length ≤ size
    · have none : (values.length - size + size - 1) / size = 0 := Nat.div_eq_of_lt (by omega)
      have one : (values.length + size - 1) / size = 1 :=
        Nat.div_eq_of_lt_le (by omega) (by omega)
      omega
    · have split : values.length + size - 1 = (values.length - size + size - 1) + size := by omega
      rw [split, Nat.add_div_right _ positive]
  rw [chunks, count, List.range_succ_eq_map, List.map_cons, List.map_map, Nat.zero_mul,
    List.drop_zero, chunks]
  refine congrArg _ (List.map_congr_left fun place _ => ?_)
  rw [Function.comp_apply, List.drop_drop, Nat.succ_eq_add_one, Nat.add_mul, Nat.one_mul,
    Nat.add_comm]

theorem mem_chunks {size : Nat} (positive : 0 < size) {values piece : List α}
    (among : piece ∈ chunks size values) : piece ≠ [] ∧ piece.length ≤ size := by
  obtain ⟨place, inside, rfl⟩ := List.mem_map.mp among
  rw [List.mem_range, Nat.lt_iff_add_one_le, Nat.le_div_iff_mul_le positive, Nat.add_mul,
    Nat.one_mul] at inside
  constructor
  · intro empty
    have length := congrArg List.length empty
    rw [List.length_take, List.length_drop, List.length_nil] at length
    omega
  · exact List.length_take_le size _

theorem chunks_of_length_le {size : Nat} {values : List α} (nonempty : values ≠ [])
    (fits : values.length ≤ size) : chunks size values = [values] := by
  have positive : 0 < size := by
    have length := List.length_pos_of_ne_nil nonempty
    omega
  rw [chunks_eq_cons positive nonempty, List.take_of_length_le fits, List.drop_eq_nil_of_le fits,
    chunks_nil positive]

/-- **The pieces are the list.** -/
theorem chunks_flatten {size : Nat} (positive : 0 < size) (values : List α) :
    (chunks size values).flatten = values := by
  obtain ⟨length, isLength⟩ : ∃ length, values.length = length := ⟨_, rfl⟩
  induction length using Nat.strongRecOn generalizing values with
  | ind length ih =>
    by_cases nonempty : values = []
    · rw [nonempty, chunks_nil positive]
      rfl
    · have some := List.length_pos_of_ne_nil nonempty
      have shorter : (values.drop size).length < length := by
        rw [List.length_drop]
        omega
      rw [chunks_eq_cons positive nonempty, List.flatten_cons, ih _ shorter _ rfl,
        List.take_append_drop]

end Toard.Library
