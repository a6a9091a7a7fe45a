/-
**Lines of a text.**

* `closed`: the text of lines that each have an end.
* `linesOf`: the lines of a text, whose last line may be without an end. **`linesOf_closed`**: those
  of closed lines are the lines, each cut at the separators in it.
-/

import Mathlib.Data.List.Basic

namespace Toard.Library

section Lines

variable {α : Type*} {separator : α}

/-- Lines with an end behind each. -/
def closed (separator : α) (lines : List (List α)) : List α := lines.flatMap (· ++ [separator])

theorem intercalate_closed {lines : List (List α)} (nonempty : lines ≠ []) :
    [separator].intercalate lines ++ [separator] = closed separator lines := by
  induction lines with
  | nil => exact absurd rfl nonempty
  | cons line rest ih =>
    cases rest with
    | nil => simp [closed]
    | cons next later =>
      rw [List.intercalate_cons_cons, List.append_assoc, ih (List.cons_ne_nil _ _)]
      simp [closed]

theorem intercalate_eq_nil {lines : List (List α)} :
    [separator].intercalate lines = [] ↔ lines = [] ∨ lines = [[]] := by
  rcases lines with _ | ⟨line, _ | ⟨next, later⟩⟩
  · simp
  · simp
  · rw [List.intercalate_cons_cons]
    simp

variable [DecidableEq α]

theorem splitOn_closed_append (lines : List (List α)) (last : List α) :
    (closed separator lines ++ last).splitOn separator
      = lines.flatMap (·.splitOn separator) ++ last.splitOn separator := by
  induction lines with
  | nil => rfl
  | cons line rest ih =>
    have shape : closed separator (line :: rest) ++ last
        = line ++ separator :: (closed separator rest ++ last) := by
      simp [closed]
    rw [shape, List.splitOn_append_cons_self, ih, List.flatMap_cons, List.append_assoc]

theorem splitOn_closed (lines : List (List α)) :
    (closed separator lines).splitOn separator = lines.flatMap (·.splitOn separator) ++ [[]] := by
  have split := @splitOn_closed_append _ separator _ lines []
  rwa [List.append_nil, List.splitOn_nil] at split

theorem of_mem_splitOn {text piece : List α} (among : piece ∈ text.splitOn separator) :
    separator ∉ piece ∧ piece ⊆ text := by
  induction text generalizing piece with
  | nil =>
    rw [List.splitOn_nil, List.mem_singleton] at among
    simp [among]
  | cons first text ih =>
    rw [List.splitOn_cons_eq_if_modifyHead] at among
    by_cases isSeparator : first = separator
    · rw [if_pos (by simpa using isSeparator)] at among
      rcases List.mem_cons.mp among with rfl | among
      · simp
      · exact ⟨(ih among).1, fun _ inside => List.mem_cons_of_mem _ ((ih among).2 inside)⟩
    · rw [if_neg (by simpa using isSeparator)] at among
      obtain ⟨head, others, isSplit⟩ := List.exists_cons_of_ne_nil (List.splitOn_ne_nil separator text)
      rw [isSplit, List.modifyHead_cons] at among
      rcases List.mem_cons.mp among with rfl | among
      · obtain ⟨out, inside⟩ := ih (by rw [isSplit]; exact List.mem_cons_self)
        refine ⟨by simpa [out] using Ne.symm isSeparator, ?_⟩
        exact List.cons_subset_cons _ inside
      · obtain ⟨out, inside⟩ := ih (by rw [isSplit]; exact List.mem_cons_of_mem _ among)
        exact ⟨out, fun _ at' => List.mem_cons_of_mem _ (inside at')⟩

/-- The lines of a text. -/
def linesOf (separator : α) (text : List α) : List (List α) :=
  let pieces := text.splitOn separator
  let last := pieces.getLastD []
  pieces.dropLast ++ if last = [] then [] else [last]

theorem of_mem_linesOf {text line : List α} (among : line ∈ linesOf separator text) :
    separator ∉ line := by
  have nonempty := List.splitOn_ne_nil separator text
  refine (@of_mem_splitOn _ separator _ text line ?_).1
  rcases List.mem_append.mp among with before | last
  · exact (List.dropLast_sublist _).subset before
  · split at last
    case isTrue => exact absurd last List.not_mem_nil
    case isFalse =>
      rw [List.mem_singleton, List.getLastD_eq_getLast?, List.getLast?_eq_some_getLast nonempty] at last
      exact last ▸ List.getLast_mem nonempty

/-- **The lines of closed lines**, each cut at its separators. -/
theorem linesOf_closed (lines : List (List α)) :
    linesOf separator (closed separator lines) = lines.flatMap (·.splitOn separator) := by
  rw [linesOf, splitOn_closed]
  simp

theorem flatMap_splitOn {lines : List (List α)} (whole : ∀ line ∈ lines, separator ∉ line) :
    lines.flatMap (·.splitOn separator) = lines := by
  induction lines with
  | nil => rfl
  | cons line rest ih =>
    rw [List.flatMap_cons, List.splitOn_eq_singleton (whole line List.mem_cons_self),
      ih fun other among => whole other (List.mem_cons_of_mem _ among), List.singleton_append]

end Lines

end Toard.Library
