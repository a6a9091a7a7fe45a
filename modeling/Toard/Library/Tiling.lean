/-
**Sums over tables that are read in pieces.**

A range is read in consecutive half-open pieces, and a table of groups in the place of the rows it
was grouped from. Sums are taken in any commutative monoid.

* `Tiles a pieces b`: the pieces follow one another from `a` to `b`.
* `Tiles.covers`, `Tiles.ordered`: together they are the range, and each ends where the next starts.
* `sumWithin_append`, `Tiles.sumWithin`: a sum over the range is that over its pieces.
* `sum_groups`, `sumOf_of_groups`: what is summed group by group is summed row by row.
-/

import Mathlib.Algebra.BigOperators.Group.List.Basic
import Mathlib.Order.Lattice

namespace Toard.Library

/-! ### Pieces of a range -/

/-- The pieces follow one another from the first place to the second. -/
inductive Tiles {α : Type*} [LE α] : α → List (α × α) → α → Prop where
  | nil (a : α) : Tiles a [] a
  | cons {a b c : α} {pieces : List (α × α)} (ordered : a ≤ b) (rest : Tiles b pieces c) :
      Tiles a ((a, b) :: pieces) c

section Order

variable {α : Type*} [LinearOrder α] {a b c : α} {pieces more : List (α × α)}

theorem Tiles.le (tiles : Tiles a pieces b) : a ≤ b := by
  induction tiles with
  | nil => exact le_rfl
  | cons ordered _ ih => exact ordered.trans ih

theorem Tiles.single (ordered : a ≤ b) : Tiles a [(a, b)] b := .cons ordered (.nil b)

theorem Tiles.append (tiles : Tiles a pieces b) (others : Tiles b more c) :
    Tiles a (pieces ++ more) c := by
  induction tiles with
  | nil => exact others
  | cons ordered _ ih => exact .cons ordered (ih others)

theorem Tiles.covers (tiles : Tiles a pieces b) (place : α) :
    (∃ piece ∈ pieces, piece.1 ≤ place ∧ place < piece.2) ↔ a ≤ place ∧ place < b := by
  induction tiles with
  | nil a =>
    constructor
    · rintro ⟨piece, among, -⟩
      cases among
    · rintro ⟨lower, upper⟩
      exact absurd upper lower.not_gt
  | @cons a b c pieces ordered rest ih =>
    rw [List.exists_mem_cons_iff, ih]
    constructor
    · rintro (⟨lower, upper⟩ | ⟨lower, upper⟩)
      · exact ⟨lower, upper.trans_le rest.le⟩
      · exact ⟨ordered.trans lower, upper⟩
    · rintro ⟨lower, upper⟩
      exact (lt_or_ge place b).imp (fun first => ⟨lower, first⟩) (fun later => ⟨later, upper⟩)

theorem Tiles.start_le (tiles : Tiles a pieces b) : ∀ piece ∈ pieces, a ≤ piece.1 := by
  induction tiles with
  | nil => exact fun _ none => (nomatch none)
  | cons ordered _ ih =>
    intro piece among
    rcases List.mem_cons.mp among with rfl | later
    · exact le_rfl
    · exact ordered.trans (ih piece later)

theorem Tiles.le_end (tiles : Tiles a pieces b) : ∀ piece ∈ pieces, piece.2 ≤ b := by
  induction tiles with
  | nil => exact fun _ none => (nomatch none)
  | cons _ rest ih =>
    intro piece among
    rcases List.mem_cons.mp among with rfl | later
    · exact rest.le
    · exact ih piece later

theorem Tiles.split (tiles : Tiles a (pieces ++ more) c) :
    ∃ b, Tiles a pieces b ∧ Tiles b more c := by
  induction pieces generalizing a with
  | nil => exact ⟨a, .nil a, tiles⟩
  | cons piece rest ih =>
    cases tiles with
    | cons ordered tail =>
      obtain ⟨b, first, second⟩ := ih tail
      exact ⟨b, .cons ordered first, second⟩

theorem Tiles.getLast (tiles : Tiles a pieces b) (some : pieces ≠ []) :
    (pieces.getLast some).2 = b := by
  induction tiles with
  | nil => exact absurd rfl some
  | @cons a b c rest ordered tail ih =>
    cases tail with
    | nil => rfl
    | cons ordered' tail' =>
      rw [List.getLast_cons (List.cons_ne_nil _ _)]
      exact ih (List.cons_ne_nil _ _)

theorem Tiles.ordered (tiles : Tiles a pieces b) :
    pieces.Pairwise fun earlier later => earlier.2 ≤ later.1 := by
  induction tiles with
  | nil => exact .nil
  | cons _ rest ih => exact .cons rest.start_le ih

end Order

/-! ### Sums -/

variable {ρ κ M : Type*} [AddCommMonoid M]

/-- The sum of the weights of the rows that are selected. -/
def sumOf (weight : ρ → M) (select : ρ → Bool) (rows : List ρ) : M :=
  ((rows.filter select).map weight).sum

@[simp] theorem sumOf_nil (weight : ρ → M) (select : ρ → Bool) : sumOf weight select [] = 0 := rfl

theorem sumOf_cons (weight : ρ → M) (select : ρ → Bool) (row : ρ) (rows : List ρ) :
    sumOf weight select (row :: rows)
      = (if select row then weight row else 0) + sumOf weight select rows := by
  unfold sumOf
  cases selected : select row with
  | true => simp [selected]
  | false => simp [selected]

theorem sumOf_or (weight : ρ → M) {first second : ρ → Bool} (rows : List ρ)
    (apart : ∀ row ∈ rows, ¬ (first row = true ∧ second row = true)) :
    sumOf weight (fun row => first row || second row) rows
      = sumOf weight first rows + sumOf weight second rows := by
  induction rows with
  | nil => simp
  | cons row rest ih =>
    have here := apart row List.mem_cons_self
    rw [sumOf_cons, sumOf_cons, sumOf_cons,
      ih fun other among => apart other (List.mem_cons_of_mem row among)]
    cases isFirst : first row <;> cases isSecond : second row
    · simp
    · simp [add_left_comm]
    · simp [add_assoc]
    · exact absurd ⟨isFirst, isSecond⟩ here

theorem sumOf_congr (weight : ρ → M) {first second : ρ → Bool} {rows : List ρ}
    (same : ∀ row ∈ rows, first row = second row) :
    sumOf weight first rows = sumOf weight second rows := by
  unfold sumOf
  rw [List.filter_congr same]

theorem sumOf_map {σ : Type*} (weight : ρ → M) (select : ρ → Bool) (f : σ → ρ) (rows : List σ) :
    sumOf weight select (rows.map f)
      = sumOf (fun row => weight (f row)) (fun row => select (f row)) rows := by
  unfold sumOf
  rw [List.filter_map, List.map_map]
  rfl

theorem sumOf_filter (weight : ρ → M) (select keep : ρ → Bool) (rows : List ρ) :
    sumOf weight select (rows.filter keep)
      = sumOf weight (fun row => select row && keep row) rows := by
  unfold sumOf
  rw [List.filter_filter]

/-- **What is summed group by group is summed row by row.** -/
theorem sum_groups [DecidableEq κ] (weight : ρ → M) (key : ρ → κ) {keys : List κ} {rows : List ρ}
    (distinct : keys.Nodup) :
    (keys.map fun k => sumOf weight (fun row => key row = k) rows).sum
      = sumOf weight (fun row => key row ∈ keys) rows := by
  induction keys with
  | nil => simp [sumOf]
  | cons k rest ih =>
    obtain ⟨fresh, distinct⟩ := List.nodup_cons.mp distinct
    rw [List.map_cons, List.sum_cons, ih distinct, ← sumOf_or]
    · exact sumOf_congr weight fun row _ => by simp [List.mem_cons]
    · rintro row _ ⟨first, later⟩
      exact fresh (of_decide_eq_true first ▸ of_decide_eq_true later)

/-- **A table of groups has the sums of the rows it was grouped from.** -/
theorem sumOf_of_groups [DecidableEq κ] {γ : Type*} (key : ρ → κ) (groupKey : γ → κ)
    {weight : ρ → M} {select : ρ → Bool} {rows : List ρ} {groupWeight : γ → M}
    {groupSelect : γ → Bool} {groups : List γ} (distinct : (groups.map groupKey).Nodup)
    (each : ∀ group ∈ groups, groupSelect group = true →
      groupWeight group = sumOf weight (fun row => key row = groupKey group) rows)
    (covers : ∀ row ∈ rows, select row = true ↔
      ∃ group ∈ groups, groupSelect group = true ∧ groupKey group = key row) :
    sumOf groupWeight groupSelect groups = sumOf weight select rows := by
  have selected : ((groups.filter groupSelect).map groupKey).Nodup :=
    distinct.sublist (List.filter_sublist.map groupKey)
  have byGroup : (groups.filter groupSelect).map groupWeight
      = ((groups.filter groupSelect).map groupKey).map fun k =>
          sumOf weight (fun row => key row = k) rows := by
    rw [List.map_map]
    refine List.map_congr_left fun group among => ?_
    obtain ⟨isGroup, isSelected⟩ := List.mem_filter.mp among
    exact each group isGroup isSelected
  rw [sumOf, byGroup, sum_groups weight key selected]
  refine sumOf_congr weight fun row among => Bool.eq_iff_iff.mpr ?_
  rw [covers row among, decide_eq_true_eq, List.mem_map]
  constructor
  · rintro ⟨group, isSelected, same⟩
    obtain ⟨isGroup, isSelected⟩ := List.mem_filter.mp isSelected
    exact ⟨group, isGroup, isSelected, same⟩
  · rintro ⟨group, isGroup, isSelected, same⟩
    exact ⟨group, List.mem_filter.mpr ⟨isGroup, isSelected⟩, same⟩

/-! ### Sums over ranges -/

section Within

variable {α : Type*} [LinearOrder α] (weight : ρ → M) (place : ρ → α)

/-- The sum over the selected rows in a half-open range. -/
def sumWithin (select : ρ → Bool) (rows : List ρ) (a b : α) : M :=
  sumOf weight (fun row => select row && (a ≤ place row && place row < b : Bool)) rows

theorem sumWithin_append (select : ρ → Bool) (rows : List ρ) {a b c : α} (first : a ≤ b)
    (second : b ≤ c) : sumWithin weight place select rows a c
      = sumWithin weight place select rows a b + sumWithin weight place select rows b c := by
  unfold sumWithin
  rw [← sumOf_or]
  · refine sumOf_congr weight fun row _ => ?_
    rw [← Bool.and_or_distrib_left]
    refine congrArg (select row && ·) (Bool.eq_iff_iff.mpr ?_)
    simp only [Bool.and_eq_true, Bool.or_eq_true, decide_eq_true_eq]
    constructor
    · rintro ⟨lower, upper⟩
      exact (lt_or_ge (place row) b).imp (fun early => ⟨lower, early⟩) (fun late => ⟨late, upper⟩)
    · rintro (⟨lower, upper⟩ | ⟨lower, upper⟩)
      · exact ⟨lower, upper.trans_le second⟩
      · exact ⟨first.trans lower, upper⟩
  · rintro row _ ⟨early, late⟩
    simp only [Bool.and_eq_true, decide_eq_true_eq] at early late
    exact absurd early.2.2 late.2.1.not_gt

@[simp] theorem sumWithin_self (select : ρ → Bool) (rows : List ρ) (a : α) :
    sumWithin weight place select rows a a = 0 := by
  unfold sumWithin sumOf
  rw [List.filter_eq_nil_iff.mpr, List.map_nil, List.sum_nil]
  intro row _ selected
  simp only [Bool.and_eq_true, decide_eq_true_eq] at selected
  exact absurd selected.2.2 selected.2.1.not_gt

/-- **A sum over a range is that over its pieces.** -/
theorem Tiles.sumWithin {a b : α} {pieces : List (α × α)} (tiles : Tiles a pieces b)
    (select : ρ → Bool) (rows : List ρ) :
    (pieces.map fun piece => sumWithin weight place select rows piece.1 piece.2).sum
      = sumWithin weight place select rows a b := by
  induction tiles with
  | nil => simp
  | cons ordered rest ih =>
    rw [List.map_cons, List.sum_cons, ih, sumWithin_append weight place select rows ordered rest.le]

end Within

end Toard.Library
