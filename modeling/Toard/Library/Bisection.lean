/-
**Bisection of an interval of integers.**

`bisect below fuel low high` looks for a place where `below` ends. The predicate need not be
monotone: whatever it is, the search ends between its bounds, at a place that is not below, unless
it is the upper bound, and right after one that is, unless it is the lower bound.

* `bisect_spec`: what the search finds, with enough fuel.
* `bisect_eq`: where the predicate ends once and for all, it finds that place.
-/

import Mathlib.Tactic.Ring

namespace Toard.Library

/-- The search between two bounds, which halves them at most `fuel` times. -/
def bisect (below : Int → Bool) : Nat → Int → Int → Int
  | 0, low, _ => low
  | fuel + 1, low, high =>
    if low < high then
      let mid := low + (high - low) / 2
      if below mid then bisect below fuel (mid + 1) high else bisect below fuel low mid
    else low

variable {below : Int → Bool}

/-- **What the search finds.** -/
theorem bisect_spec {fuel : Nat} {low high : Int} (ordered : low ≤ high)
    (enough : high - low < 2 ^ fuel) :
    low ≤ bisect below fuel low high ∧ bisect below fuel low high ≤ high ∧
      (bisect below fuel low high < high → below (bisect below fuel low high) = false) ∧
      (low < bisect below fuel low high → below (bisect below fuel low high - 1) = true) := by
  induction fuel generalizing low high with
  | zero =>
    have single : low = high := by omega
    subst single
    exact ⟨le_rfl, le_rfl, fun inside => absurd inside (lt_irrefl _),
      fun inside => absurd inside (lt_irrefl _)⟩
  | succ fuel ih =>
    rw [pow_succ] at enough
    rw [bisect]
    split
    case isFalse done =>
      have single : low = high := by omega
      subst single
      exact ⟨le_rfl, le_rfl, fun inside => absurd inside (lt_irrefl _),
        fun inside => absurd inside (lt_irrefl _)⟩
    case isTrue wide =>
      dsimp only
      generalize middle : low + (high - low) / 2 = mid
      split
      · next isBelow =>
        obtain ⟨lower, upper, ends, starts⟩ := ih (by omega : mid + 1 ≤ high) (by omega)
        refine ⟨by omega, upper, ends, fun _ => ?_⟩
        rcases eq_or_lt_of_le lower with same | later
        · rw [← same, add_sub_cancel_right]
          exact isBelow
        · exact starts later
      · next notBelow =>
        obtain ⟨lower, upper, ends, starts⟩ := ih (by omega : low ≤ mid) (by omega)
        refine ⟨lower, by omega, fun _ => ?_, starts⟩
        rcases eq_or_lt_of_le upper with same | earlier
        · rw [same]
          exact Bool.eq_false_iff.mpr notBelow
        · exact ends earlier

/-- **A predicate that ends once and for all ends where the search does.** -/
theorem bisect_eq {fuel : Nat} {low high first : Int} (enough : high - low < 2 ^ fuel)
    (lower : low ≤ first) (upper : first ≤ high)
    (before : ∀ t, low ≤ t → t < first → below t = true)
    (after : ∀ t, first ≤ t → t < high → below t = false) :
    bisect below fuel low high = first := by
  obtain ⟨from_low, to_high, ends, starts⟩ := @bisect_spec below fuel low high
    (lower.trans upper) enough
  generalize bisect below fuel low high = found at *
  rcases lt_trichotomy found first with early | same | late
  · have isBelow := before found from_low early
    rw [ends (early.trans_le upper)] at isBelow
    cases isBelow
  · exact same
  · have isBelow := starts (lower.trans_lt late)
    rw [after (found - 1) (by omega) (by omega)] at isBelow
    cases isBelow

end Toard.Library
