/-
**Tables of bearer grants: issued with a life span, kept up to a capacity.**

A grant is a token that stands for what its holder may do until it expires. A table drops what has
expired whenever it is used, and the oldest grant when it is full.

* `live`, `issue`, `spend`: what a use drops, how a grant is added, how a single-use grant is taken.
* `mem_issue`, `nodup_issue`: what is in the table afterwards is an old grant or the new one.
* `issue_length_le`: the table never exceeds its capacity.
* `spend_eq_some`, `notMem_of_spend`: a grant that is spent was in the table, and is gone.
-/

import Mathlib.Data.List.Nodup

namespace Toard.Library

variable {Holder : Type*}

/-- A token, what it stands for, and when it ends. -/
structure Grant (Holder : Type*) where
  token : String
  holder : Holder
  expiresAt : Nat
deriving DecidableEq

namespace Grant

/-- The grants that have not expired. -/
def live (now : Nat) (grants : List (Grant Holder)) : List (Grant Holder) :=
  grants.filter fun grant => now ≤ grant.expiresAt

/-- A grant joins the live ones; the oldest makes room if there are `capacity` already. -/
def issue (capacity : Nat) (new : Grant Holder) (now : Nat) (grants : List (Grant Holder)) :
    List (Grant Holder) :=
  let kept := live now grants
  (if capacity ≤ kept.length then kept.tail else kept) ++ [new]

/-- A single-use grant is taken out of the table by its token. -/
def spend (token : String) (grants : List (Grant Holder)) :
    Option (Grant Holder × List (Grant Holder)) :=
  match grants with
  | [] => none
  | grant :: rest =>
    if grant.token = token then some (grant, rest)
    else (spend token rest).map fun found => (found.1, grant :: found.2)

variable {now capacity : Nat} {grants : List (Grant Holder)}

theorem mem_live {grant : Grant Holder} :
    grant ∈ live now grants ↔ grant ∈ grants ∧ now ≤ grant.expiresAt := by
  unfold live
  rw [List.mem_filter, decide_eq_true_iff]

theorem live_sublist (now : Nat) (grants : List (Grant Holder)) :
    (live now grants).Sublist grants := List.filter_sublist

theorem kept_sublist (capacity now : Nat) (grants : List (Grant Holder)) :
    (if capacity ≤ (live now grants).length then (live now grants).tail
      else live now grants).Sublist grants := by
  split
  case isTrue => exact (List.tail_sublist _).trans (live_sublist now grants)
  case isFalse => exact live_sublist now grants

theorem mem_issue {new grant : Grant Holder} (among : grant ∈ issue capacity new now grants) :
    grant ∈ grants ∨ grant = new := by
  rcases List.mem_append.mp among with kept | last
  · exact .inl ((kept_sublist capacity now grants).subset kept)
  · exact .inr (List.mem_singleton.mp last)

theorem issue_length_le {new : Grant Holder} (room : 0 < capacity)
    (bounded : grants.length ≤ capacity) : (issue capacity new now grants).length ≤ capacity := by
  have kept := (live_sublist now grants).length_le
  unfold issue
  rw [List.length_append, List.length_singleton]
  split
  case isTrue =>
    rw [List.length_tail]
    omega
  case isFalse => omega

theorem spend_eq_some {token : String} {grant : Grant Holder} {rest : List (Grant Holder)}
    (spent : spend token grants = some (grant, rest)) :
    grant ∈ grants ∧ grant.token = token ∧ rest.Sublist grants := by
  induction grants generalizing rest with
  | nil => cases spent
  | cons head tail ih =>
    unfold spend at spent
    split at spent
    case isTrue same =>
      cases spent
      exact ⟨List.mem_cons_self, same, List.sublist_cons_self _ _⟩
    case isFalse =>
      obtain ⟨⟨found, left⟩, later, made⟩ := Option.map_eq_some_iff.mp spent
      cases made
      obtain ⟨among, same, less⟩ := ih later
      exact ⟨List.mem_cons_of_mem head among, same, less.cons_cons head⟩

theorem notMem_of_spend {token : String} {grant : Grant Holder} {rest : List (Grant Holder)}
    (distinct : (grants.map Grant.token).Nodup)
    (spent : spend token grants = some (grant, rest)) : token ∉ rest.map Grant.token := by
  induction grants generalizing rest with
  | nil => cases spent
  | cons head tail ih =>
    rw [List.map_cons, List.nodup_cons] at distinct
    unfold spend at spent
    split at spent
    case isTrue same =>
      cases spent
      exact same ▸ distinct.1
    case isFalse differs =>
      obtain ⟨⟨found, left⟩, later, made⟩ := Option.map_eq_some_iff.mp spent
      cases made
      rw [List.map_cons, List.mem_cons, not_or]
      exact ⟨fun same => differs same.symm, ih distinct.2 later⟩

theorem nodup_issue {new : Grant Holder} (distinct : (grants.map Grant.token).Nodup)
    (fresh : new.token ∉ grants.map Grant.token) :
    ((issue capacity new now grants).map Grant.token).Nodup := by
  unfold issue
  rw [List.map_append, List.nodup_append]
  have kept := kept_sublist capacity now grants
  refine ⟨distinct.sublist (kept.map Grant.token), List.nodup_singleton _, ?_⟩
  rintro token among other last rfl
  rw [List.map_cons, List.map_nil, List.mem_singleton] at last
  exact fresh (last ▸ (kept.map Grant.token).subset among)

end Grant

end Toard.Library
