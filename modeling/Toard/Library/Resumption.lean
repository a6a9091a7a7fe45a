/-
**Sending a list that is read again and again.**

A list is read as a whole each time, and only what was not sent with the last one is sent: the rest
of it where the last one is its beginning, and all of it otherwise.

* `mem_or_unsent`: nothing of a list is left out.
* **`mem_sentOf`**: over any lists, each member of each of them is sent.
* **`append_sentOf`**: over lists that only grow, what is sent is the last list, each place once.
-/

import Mathlib.Data.List.Infix

namespace Toard.Library

variable {K : Type*} [DecidableEq K]

/-- What is sent of a list after the one before it. -/
def unsent (sent now : List K) : List K :=
  if sent <+: now then now.drop sent.length else now

theorem mem_of_mem_unsent {sent now : List K} {k : K} (among : k ∈ unsent sent now) : k ∈ now := by
  rw [unsent] at among
  split at among
  · exact List.mem_of_mem_drop among
  · exact among

theorem length_unsent_le (sent now : List K) : (unsent sent now).length ≤ now.length := by
  rw [unsent]
  split
  · exact (List.drop_sublist _ _).length_le
  · exact le_rfl

theorem append_unsent {sent now : List K} (grown : sent <+: now) :
    sent ++ unsent sent now = now := by
  rw [unsent, if_pos grown]
  obtain ⟨added, rfl⟩ := grown
  rw [List.drop_left]

theorem mem_or_unsent (sent : List K) {now : List K} {k : K} (among : k ∈ now) :
    k ∈ sent ∨ k ∈ unsent sent now := by
  by_cases grown : sent <+: now
  · rwa [← append_unsent grown, List.mem_append] at among
  · exact .inr (by rwa [unsent, if_neg grown])

/-- What is sent of some lists, one after another. -/
def sentOf : List K → List (List K) → List K
  | _, [] => []
  | sent, now :: rest => unsent sent now ++ sentOf now rest

/-- **Each member of each list is sent**, or was sent before. -/
theorem mem_sentOf {sent now : List K} {lists : List (List K)} (isRead : now ∈ lists) {k : K}
    (among : k ∈ now) : k ∈ sent ∨ k ∈ sentOf sent lists := by
  induction lists generalizing sent with
  | nil => cases isRead
  | cons first rest ih =>
    rw [sentOf, List.mem_append]
    rcases List.mem_cons.mp isRead with rfl | later
    · exact (mem_or_unsent sent among).imp_right .inl
    · have carried : k ∈ first ∨ k ∈ sentOf first rest := ih later
      rcases carried with before | after
      · exact (mem_or_unsent sent before).imp_right .inl
      · exact .inr (.inr after)

/-- **Lists that only grow are sent once.** -/
theorem append_sentOf {sent : List K} {lists : List (List K)}
    (grown : List.IsChain (· <+: ·) (sent :: lists)) :
    sent ++ sentOf sent lists = (sent :: lists).getLast (List.cons_ne_nil _ _) := by
  induction lists generalizing sent with
  | nil => exact List.append_nil sent
  | cons now rest ih =>
    obtain ⟨grows, later⟩ := List.isChain_cons_cons.mp grown
    rw [sentOf, ← List.append_assoc, append_unsent grows, ih later]
    rfl

end Toard.Library
