/-
**Where a text first occurs in another, and the lines of a text.**

A pattern without the separator lies in one line of a text if it lies in the text at all, so that
texts made of whole lines can be searched one after the other.

* `firstAt`: the position of the first occurrence.
* `firstAt_append_sep`: before a separator, and after it.
* `Whole`, `firstAt_whole`, `splitOn_whole`: texts of whole lines, searched and split.
-/

import Mathlib.Data.List.Basic

namespace Toard.Library

variable {α : Type*} [DecidableEq α]

/-- Where a pattern first begins in a text. -/
def firstAt (pattern : List α) : List α → Option Nat
  | [] => if pattern = [] then some 0 else none
  | c :: rest =>
    if pattern.isPrefixOf (c :: rest) then some 0 else (firstAt pattern rest).map (· + 1)

variable {pattern : List α}

theorem firstAt_cons (c : α) (rest : List α) : firstAt pattern (c :: rest)
    = if pattern.isPrefixOf (c :: rest) then some 0 else (firstAt pattern rest).map (· + 1) := rfl

theorem firstAt_self (nonempty : pattern ≠ []) (rest : List α) :
    firstAt pattern (pattern ++ rest) = some 0 := by
  cases pattern with
  | nil => exact absurd rfl nonempty
  | cons c pattern =>
    rw [List.cons_append, firstAt, if_pos]
    exact List.isPrefixOf_iff_prefix.mpr (List.prefix_append (c :: pattern) rest)

theorem firstAt_le {text : List α} {n : Nat} (found : firstAt pattern text = some n) :
    n + pattern.length ≤ text.length := by
  induction text generalizing n with
  | nil =>
    rw [firstAt] at found
    split at found
    case isTrue empty =>
      cases found
      rw [empty]
      exact Nat.le_refl _
    case isFalse => cases found
  | cons c rest ih =>
    rw [firstAt] at found
    split at found
    case isTrue here =>
      cases found
      rw [Nat.zero_add]
      exact (List.isPrefixOf_iff_prefix.mp here).length_le
    case isFalse =>
      obtain ⟨m, later, rfl⟩ := Option.map_eq_some_iff.mp found
      have room := ih later
      rw [List.length_cons]
      omega

theorem firstAt_append {text : List α} {n : Nat} (rest : List α) (nonempty : pattern ≠ [])
    (found : firstAt pattern text = some n) : firstAt pattern (text ++ rest) = some n := by
  induction text generalizing n with
  | nil =>
    rw [firstAt, if_neg nonempty] at found
    cases found
  | cons c text ih =>
    have room := firstAt_le found
    rw [firstAt] at found
    rw [List.cons_append, firstAt]
    -- the pattern fits in the text, so what follows has no part in it
    have same : pattern.isPrefixOf (c :: (text ++ rest)) = pattern.isPrefixOf (c :: text) := by
      rw [Bool.eq_iff_iff, List.isPrefixOf_iff_prefix, List.isPrefixOf_iff_prefix,
        ← List.cons_append]
      exact ⟨fun begins => List.prefix_of_prefix_length_le begins (List.prefix_append _ _) (by omega),
        fun begins => begins.trans (List.prefix_append _ _)⟩
    rw [same]
    split at found
    case isTrue here => rw [if_pos here, found]
    case isFalse here =>
      obtain ⟨m, later, rfl⟩ := Option.map_eq_some_iff.mp found
      rw [if_neg here, ih later, Option.map_some]

theorem firstAt_skip {skipped : List α} (out : ∀ c ∈ skipped, pattern.head? ≠ some c)
    (nonempty : pattern ≠ []) (rest : List α) :
    firstAt pattern (skipped ++ rest) = (firstAt pattern rest).map (· + skipped.length) := by
  induction skipped with
  | nil => exact Option.map_id'.symm
  | cons c skipped ih =>
    have elsewhere : ¬ pattern.isPrefixOf (c :: (skipped ++ rest)) = true := by
      intro begins
      cases pattern with
      | nil => exact nonempty rfl
      | cons d pattern =>
        have same := (List.cons_prefix_cons.mp (List.isPrefixOf_iff_prefix.mp begins)).1
        exact out c List.mem_cons_self (congrArg some same)
    rw [List.cons_append, firstAt, if_neg elsewhere,
      ih fun d among => out d (List.mem_cons_of_mem c among), Option.map_map]
    exact congrArg (Option.map · _) (funext fun n => Nat.add_assoc n _ 1)

variable {sep : α} (separate : sep ∉ pattern) (nonempty : pattern ≠ [])

omit [DecidableEq α] in
include separate in
theorem prefix_append_sep {before after : List α} :
    pattern <+: before ++ sep :: after ↔ pattern <+: before := by
  refine ⟨fun begins => ?_, fun begins => begins.trans (List.prefix_append _ _)⟩
  by_cases short : pattern.length ≤ before.length
  · exact List.prefix_of_prefix_length_le begins (List.prefix_append _ _) short
  · have longer : before ++ [sep] <+: pattern := by
      refine List.prefix_of_prefix_length_le ?_ begins (by
        rw [List.length_append, List.length_singleton]
        omega)
      exact ⟨after, by rw [List.append_assoc, List.singleton_append]⟩
    exact absurd (longer.subset (List.mem_append_right _ (List.mem_singleton_self sep))) separate

include separate nonempty in
/-- **The first occurrence is before the separator, or else after it.** -/
theorem firstAt_append_sep (before after : List α) :
    firstAt pattern (before ++ sep :: after)
      = (firstAt pattern before).or
          ((firstAt pattern after).map (· + (before.length + 1))) := by
  induction before with
  | nil =>
    have elsewhere : ¬ pattern.isPrefixOf (sep :: after) = true := by
      intro begins
      have before_ := (@prefix_append_sep _ _ _ separate [] after).mp
        (List.isPrefixOf_iff_prefix.mp begins)
      exact nonempty (List.prefix_nil.mp before_)
    rw [List.nil_append, firstAt_cons, if_neg elsewhere, firstAt, if_neg nonempty]
    rfl
  | cons c before ih =>
    rw [List.cons_append, firstAt, firstAt, ih]
    have same : pattern.isPrefixOf (c :: (before ++ sep :: after))
        = pattern.isPrefixOf (c :: before) := by
      rw [Bool.eq_iff_iff, List.isPrefixOf_iff_prefix, List.isPrefixOf_iff_prefix,
        ← List.cons_append, prefix_append_sep separate]
    rw [same]
    split
    case isTrue => rfl
    case isFalse =>
      cases firstAt pattern before with
      | some n => rfl
      | none =>
        rw [Option.none_or, Option.map_none, Option.none_or, Option.map_map]
        rfl

include separate nonempty in
theorem firstAt_splitOn {text : List α} (absent : firstAt pattern text = none) :
    ∀ line ∈ text.splitOn sep, firstAt pattern line = none := by
  intro line among
  by_cases more : sep ∈ text
  · obtain ⟨before, after, whole, out⟩ := List.eq_append_cons_of_mem more
    have shorter : after.length < text.length := by
      rw [whole, List.length_append, List.length_cons]
      omega
    rw [whole, firstAt_append_sep separate nonempty, Option.or_eq_none_iff,
      Option.map_eq_none_iff] at absent
    rw [whole, List.splitOn_append_cons_self_of_not_mem out] at among
    obtain rfl | later := List.mem_cons.mp among
    · exact absent.1
    · exact firstAt_splitOn absent.2 line later
  · rw [List.splitOn_eq_singleton more, List.mem_singleton] at among
    rw [among, absent]
termination_by text.length

/-! ### Texts of whole lines -/

/-- Nothing, or a text that ends with the separator. -/
def Whole (sep : α) (text : List α) : Prop := text = [] ∨ ∃ start, text = start ++ [sep]

include separate nonempty in
theorem firstAt_whole {text : List α} (whole : Whole sep text) (absent : firstAt pattern text = none)
    (rest : List α) :
    firstAt pattern (text ++ rest) = (firstAt pattern rest).map (· + text.length) := by
  obtain rfl | ⟨start, rfl⟩ := whole
  · exact Option.map_id'.symm
  · rw [firstAt_append_sep separate nonempty] at absent
    have before := (Option.or_eq_none_iff.mp absent).1
    rw [List.append_assoc, List.singleton_append, firstAt_append_sep separate nonempty, before,
      Option.none_or, List.length_append, List.length_singleton]

theorem splitOn_whole {text : List α} (whole : Whole sep text) (rest : List α) :
    (text ++ rest).splitOn sep = (text.splitOn sep).dropLast ++ rest.splitOn sep := by
  obtain rfl | ⟨start, rfl⟩ := whole
  · rfl
  · rw [List.append_assoc, List.singleton_append, List.splitOn_append_cons_self,
      List.splitOn_append_cons_self, List.splitOn_nil, List.dropLast_concat]

theorem splitOn_dropLast {text : List α} (whole : Whole sep text) :
    text.splitOn sep = (text.splitOn sep).dropLast ++ [[]] := by
  have split := splitOn_whole whole []
  rwa [List.append_nil, List.splitOn_nil] at split

end Toard.Library
