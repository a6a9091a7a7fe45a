/-
**Reading a list in pages by a cursor.**

A client asks for a page, gets a cursor for the next one with it, and asks on until there is none. A
request examines some items, reports some, and stops where it likes.

* `filter_beyond`: behind an element of a sorted list are the elements that do not reach it.
* `Follows`: the pages that a client gets from a cursor on.
* `Paged`: what a request must do: what is left at its cursor is what it does and what is left
  at the next one, and a request with a next cursor has examined something.
* **`Paged.exists_follows`**: the pages come to an end, they report and examine all that is
  left at the first cursor, in order, and no cursor comes twice.
* `Follows.unique`: the pages are those that the requests give.
-/

import Mathlib.Data.List.Nodup

namespace Toard.Library

/-! ### The place of a cursor in a sorted list -/

/-- **Behind an element** of a list without doubles are the elements that do not reach it. -/
theorem filter_beyond {α : Type*} {reaches : α → α → Bool} {before after : List α} {a : α}
    (itself : reaches a a = true)
    (antisymm : ∀ b ∈ after, reaches a b = true → reaches b a = true → False)
    (sorted : (before ++ a :: after).Pairwise fun b c => reaches b c = true) :
    (before ++ a :: after).filter (fun b => !reaches b a) = after := by
  obtain ⟨-, fromA, across⟩ := List.pairwise_append.mp sorted
  have passed : before.filter (fun b => !reaches b a) = [] := by
    refine List.filter_eq_nil_iff.mpr fun b among => ?_
    rw [across b among a List.mem_cons_self]
    decide
  have left : after.filter (fun b => !reaches b a) = after := by
    refine List.filter_eq_self.mpr fun b among => ?_
    cases reached : reaches b a with
    | false => rfl
    | true => exact absurd reached fun reached =>
        antisymm b among ((List.pairwise_cons.mp fromA).1 b among) reached
  rw [List.filter_append, passed, List.nil_append, List.filter_cons_of_neg (by simp [itself]), left]

/-! ### Pages -/

variable {Cursor Item Out Error : Type*}

/-- What one request examined and reported, and the cursor that it gave. -/
structure Page (Cursor Item Out : Type*) where
  examined : List Item
  reported : List Out
  next : Option Cursor
deriving DecidableEq

/-- The pages from a cursor on; the requests are numbered, for each may be cut short in its own way. -/
inductive Follows (request : Nat → Option Cursor → Except Error (Page Cursor Item Out)) :
    Nat → Option Cursor → List (Page Cursor Item Out) → Prop
  | last {number : Nat} {cursor : Option Cursor} {page : Page Cursor Item Out}
    (answered : request number cursor = .ok page) (ended : page.next = none) :
    Follows request number cursor [page]
  | more {number : Nat} {cursor : Option Cursor} {page : Page Cursor Item Out} {next : Cursor}
    {pages : List (Page Cursor Item Out)} (answered : request number cursor = .ok page)
    (given : page.next = some next) (rest : Follows request (number + 1) (some next) pages) :
    Follows request number cursor (page :: pages)

variable {request : Nat → Option Cursor → Except Error (Page Cursor Item Out)}

theorem Follows.unique {number : Nat} {cursor : Option Cursor}
    {pages others : List (Page Cursor Item Out)} (follows : Follows request number cursor pages)
    (other : Follows request number cursor others) : pages = others := by
  induction follows generalizing others with
  | last answered ended =>
    cases other with
    | last answered' =>
      rw [answered] at answered'
      cases answered'
      rfl
    | more answered' given =>
      rw [answered] at answered'
      cases answered'
      rw [ended] at given
      cases given
  | more answered given _ ih =>
    cases other with
    | last answered' ended =>
      rw [answered] at answered'
      cases answered'
      rw [given] at ended
      cases ended
    | more answered' given' rest =>
      rw [answered] at answered'
      cases answered'
      rw [given] at given'
      cases given'
      rw [ih rest]

/-- **What is left at a cursor**, to examine and to report, and what a request does of it. -/
structure Paged (request : Nat → Option Cursor → Except Error (Page Cursor Item Out))
    (valid : Option Cursor → Prop) (plan : Option Cursor → List Item)
    (found : Option Cursor → List Out) : Prop where
  answered : ∀ number cursor, valid cursor → ∃ page, request number cursor = .ok page
  ended : ∀ number cursor page, valid cursor → request number cursor = .ok page →
    page.next = none → page.examined = plan cursor ∧ page.reported = found cursor
  more : ∀ number cursor page next, valid cursor → request number cursor = .ok page →
    page.next = some next → valid (some next) ∧ page.examined ≠ [] ∧
      page.examined ++ plan (some next) = plan cursor ∧
      page.reported ++ found (some next) = found cursor

variable {valid : Option Cursor → Prop} {plan : Option Cursor → List Item}
  {found : Option Cursor → List Out}

/-- **All pages.** Less is left at each cursor than at the one before. -/
theorem Paged.exists_follows (paged : Paged request valid plan found) (number : Nat)
    (cursor : Option Cursor) (isValid : valid cursor) :
    ∃ pages, Follows request number cursor pages ∧ pages.flatMap Page.examined = plan cursor ∧
      pages.flatMap Page.reported = found cursor ∧ (pages.filterMap Page.next).Nodup ∧
      ∀ next ∈ pages.filterMap Page.next, (plan (some next)).length < (plan cursor).length := by
  obtain ⟨size, isSize⟩ : ∃ size, (plan cursor).length = size := ⟨_, rfl⟩
  induction size using Nat.strongRecOn generalizing number cursor with
  | ind size ih =>
    obtain ⟨page, answered⟩ := paged.answered number cursor isValid
    cases given : page.next with
    | none =>
      obtain ⟨examined, reported⟩ := paged.ended number cursor page isValid answered given
      refine ⟨_, .last answered given, ?_, ?_, ?_, ?_⟩
      · rw [List.flatMap_singleton, examined]
      · rw [List.flatMap_singleton, reported]
      · simp [given]
      · simp [given]
    | some next =>
      obtain ⟨nextValid, progress, examined, reported⟩ :=
        paged.more number cursor page next isValid answered given
      have shorter : (plan (some next)).length < (plan cursor).length := by
        have positive := List.length_pos_of_ne_nil progress
        rw [← examined, List.length_append]
        omega
      obtain ⟨pages, follows, allExamined, allReported, distinct, less⟩ :=
        ih _ (by omega) (number + 1) (some next) nextValid rfl
      refine ⟨_, .more answered given follows, ?_, ?_, ?_, ?_⟩
      · rw [List.flatMap_cons, allExamined, examined]
      · rw [List.flatMap_cons, allReported, reported]
      · rw [List.filterMap_cons_some given, List.nodup_cons]
        exact ⟨fun again => Nat.lt_irrefl _ (less next again), distinct⟩
      · rw [List.filterMap_cons_some given, List.forall_mem_cons]
        exact ⟨shorter, fun later among => Nat.lt_trans (less later among) shorter⟩

end Toard.Library
