/-
**The Shapley value of a game.**

A game gives a value to every set of players. A player's share is the mean, over all orders in which
the players come, of what the value changes when the player does.

* `weight`: the part of the orders in which a set of a size comes just before a player.
* `shapley`: the share of a player.
* **`sum_shapley`**: the shares sum to the value of all players less that of none.
* `shapley_compl`: taking the players away instead of adding them negates the shares.
* `shapley_eq_zero`: a player who changes nothing has no share.
-/

import Mathlib.Algebra.BigOperators.Group.Finset.Sigma
import Mathlib.Algebra.BigOperators.Ring.Finset
import Mathlib.Algebra.Order.Field.Rat
import Mathlib.Tactic.FieldSimp
import Mathlib.Tactic.Ring

namespace Toard.Library

open Finset Nat

/-- The part of the orders of `n` players in which a set of `k` comes just before a player. -/
def weight (n k : ℕ) : ℚ := (k ! * (n - 1 - k) ! : ℕ) / (n ! : ℕ)

variable {ι : Type*} [Fintype ι] [DecidableEq ι]

/-- The share of a player. -/
def shapley (v : Finset ι → ℚ) (i : ι) : ℚ :=
  ∑ s with i ∉ s, weight (Fintype.card ι) s.card * (v (insert i s) - v s)

theorem shapley_eq_zero {v : Finset ι → ℚ} {i : ι} (null : ∀ s, i ∉ s → v (insert i s) = v s) :
    shapley v i = 0 := by
  refine sum_eq_zero fun s among => ?_
  rw [null s (mem_filter.mp among).2, sub_self, mul_zero]

theorem weight_symm {n k : ℕ} (small : k < n) : weight n (n - 1 - k) = weight n k := by
  rw [weight, weight, show n - 1 - (n - 1 - k) = k by omega, Nat.mul_comm]

/-- **The game of those who are left away has the shares negated.** -/
theorem shapley_compl (v : Finset ι → ℚ) (i : ι) :
    shapley (fun s => v sᶜ) i = -shapley v i := by
  rw [shapley, shapley, ← sum_neg_distrib]
  refine sum_nbij' (fun s => (insert i s)ᶜ) (fun s => (insert i s)ᶜ) ?_ ?_ ?_ ?_ ?_
  · exact fun s _ => by simp
  · exact fun s _ => by simp
  · exact fun s among => by
      have out := (mem_filter.mp among).2
      ext j
      by_cases same : j = i
      · simp [same, out]
      · simp [same]
  · exact fun s among => by
      have out := (mem_filter.mp among).2
      ext j
      by_cases same : j = i
      · simp [same, out]
      · simp [same]
  · intro s among
    have out := (mem_filter.mp among).2
    have size : (insert i s)ᶜ.card = Fintype.card ι - 1 - s.card := by
      rw [card_compl, card_insert_of_notMem out]
      omega
    have small : s.card < Fintype.card ι :=
      card_lt_univ_of_notMem out
    have back : insert i (insert i s)ᶜ = sᶜ := by
      ext j
      by_cases same : j = i
      · simp [same, out]
      · simp [same]
    rw [size, weight_symm small, back]
    ring

theorem sum_insert (v : Finset ι → ℚ) (i : ι) :
    ∑ s with i ∉ s, weight (Fintype.card ι) s.card * v (insert i s)
      = ∑ t with i ∈ t, weight (Fintype.card ι) (t.card - 1) * v t := by
  refine sum_nbij' (fun s => insert i s) (fun t => t.erase i) ?_ ?_ ?_ ?_ ?_
  · exact fun s _ => by simp
  · exact fun t _ => by simp
  · exact fun s among => erase_insert (mem_filter.mp among).2
  · exact fun t among => insert_erase (mem_filter.mp among).2
  · intro s among
    rw [card_insert_of_notMem (mem_filter.mp among).2, Nat.add_sub_cancel]

omit [DecidableEq ι] in
theorem sum_members (f : Finset ι → ℚ) (p : ι → Finset ι → Prop) [∀ i t, Decidable (p i t)] :
    ∑ i, ∑ t with p i t, f t = ∑ t, (univ.filter fun i => p i t).card * f t := by
  have swap : ∑ i, ∑ t with p i t, f t = ∑ t, ∑ i with p i t, f t := by
    simp only [sum_filter]
    exact sum_comm
  rw [swap]
  exact sum_congr rfl fun t _ => by rw [sum_const, nsmul_eq_mul]

theorem weight_balance {n k : ℕ} (some_ : 0 < k) (small : k < n) :
    (k : ℚ) * weight n (k - 1) = (n - k : ℕ) * weight n k := by
  have before : k * (k - 1)! = k ! := Nat.mul_factorial_pred (by omega)
  have after : (n - k) * (n - k - 1)! = (n - k)! := Nat.mul_factorial_pred (by omega)
  rw [weight, weight, show n - 1 - (k - 1) = n - k by omega, show n - 1 - k = n - k - 1 by omega,
    mul_div_assoc', mul_div_assoc']
  congr 1
  rw [← Nat.cast_mul, ← Nat.cast_mul, ← Nat.mul_assoc, before, ← after]
  congr 1
  ring

theorem weight_ends {n : ℕ} (some_ : 0 < n) :
    (n : ℚ) * weight n (n - 1) = 1 ∧ (n : ℚ) * weight n 0 = 1 := by
  have whole : n * (n - 1)! = n ! := Nat.mul_factorial_pred (by omega)
  have nonzero : (n ! : ℚ) ≠ 0 := by exact_mod_cast Nat.factorial_ne_zero n
  constructor
  · rw [weight, Nat.sub_self, Nat.factorial_zero, Nat.mul_one, mul_div_assoc', ← Nat.cast_mul,
      whole, div_self nonzero]
  · rw [weight, Nat.factorial_zero, Nat.one_mul, Nat.sub_zero, mul_div_assoc', ← Nat.cast_mul,
      whole, div_self nonzero]

/-- **The shares sum to the value of all players less that of none.** -/
theorem sum_shapley [Nonempty ι] (v : Finset ι → ℚ) :
    ∑ i, shapley v i = v univ - v ∅ := by
  have positive : 0 < Fintype.card ι := Fintype.card_pos
  have split : ∀ i, shapley v i = ∑ t with i ∈ t, weight (Fintype.card ι) (t.card - 1) * v t
      - ∑ t with i ∉ t, weight (Fintype.card ι) t.card * v t := by
    intro i
    rw [shapley, ← sum_insert, ← sum_sub_distrib]
    exact sum_congr rfl fun s _ => mul_sub _ _ _
  have coefficient : ∀ t : Finset ι,
      (univ.filter fun i => i ∈ t).card * (weight (Fintype.card ι) (t.card - 1) * v t)
        - (univ.filter fun i => i ∉ t).card * (weight (Fintype.card ι) t.card * v t)
      = (if t = univ then v univ else 0) - if t = ∅ then v ∅ else 0 := by
    intro t
    have inside : (univ.filter fun i => i ∈ t).card = t.card := by
      rw [filter_univ_mem]
    have outside : (univ.filter fun i => i ∉ t).card = Fintype.card ι - t.card := by
      rw [filter_not, filter_univ_mem, ← compl_eq_univ_sdiff, card_compl]
    have ends := weight_ends positive
    rw [inside, outside, ← mul_assoc, ← mul_assoc]
    by_cases all : t = univ
    · have nonempty : (univ : Finset ι) ≠ ∅ := univ_nonempty.ne_empty
      rw [all, Finset.card_univ, Nat.sub_self, ends.1, if_pos rfl, if_neg nonempty]
      ring
    · by_cases nobody : t = ∅
      · rw [nobody, card_empty, Nat.sub_zero, ends.2, if_neg (nobody ▸ all), if_pos rfl]
        simp
      · have some_ : 0 < t.card := card_pos.mpr (nonempty_iff_ne_empty.mpr nobody)
        have small : t.card < Fintype.card ι := (card_lt_iff_ne_univ t).mpr all
        rw [weight_balance some_ small, if_neg all, if_neg nobody]
        ring
  simp only [split]
  rw [sum_sub_distrib, sum_members, sum_members, ← sum_sub_distrib]
  simp only [coefficient]
  rw [sum_sub_distrib, sum_ite_eq' univ univ, sum_ite_eq' univ ∅, if_pos (mem_univ _),
    if_pos (mem_univ _)]

end Toard.Library
