/-
**The days of a wall clock (`timezone.ts`).**

A clock is given by its offset from UTC at every millisecond, by at most 26 hours. It may be put
forward and back at any instant and by any amount. Daily caches and reports take the first instants
of the dates for the boundaries of the days.

* **`daysPartition_iff`**: this holds exactly if the local date never goes back.
-/

import Mathlib
import Toard.Timezone.Zone

namespace Toard.Timezone

open Toard.Library (bisect bisect_eq)

/-! ### Clocks -/

def maxOffsetMs : Int := 26 * hourMs

structure Clock where
  offset : Int → Int
  within : ∀ instant, -maxOffsetMs ≤ offset instant ∧ offset instant ≤ maxOffsetMs

namespace Clock

def localDateKey (clock : Clock) (instant : Int) : Int := (instant + clock.offset instant) / dayMs

def firstInstantOfLocalDate (clock : Clock) (date : Int) : Option Int :=
  let midnightUtc := date * dayMs
  let low := bisect (fun instant => clock.localDateKey instant < date) 29
    (midnightUtc - searchWindowMs) (midnightUtc + searchWindowMs)
  if clock.localDateKey low = date then some low else none

def nextTimezoneDayStart (clock : Clock) (bucket : Int) : Option Int :=
  clock.firstInstantOfLocalDate (clock.localDateKey bucket + 1)

def ofZone (zone : Zone) (within : ∀ instant, -maxOffsetMs ≤ zone.offset instant ∧
    zone.offset instant ≤ maxOffsetMs) : Clock := ⟨zone.offset, within⟩

theorem firstInstantOfLocalDate_ofZone (zone : Zone)
    (within : ∀ instant, -maxOffsetMs ≤ zone.offset instant ∧ zone.offset instant ≤ maxOffsetMs)
    (date : Int) : (ofZone zone within).firstInstantOfLocalDate date
      = Timezone.firstInstantOfLocalDate zone date := rfl

/-! ### Days -/

def Exists (clock : Clock) (date : Int) : Prop := ∃ instant, clock.localDateKey instant = date

structure Next (clock : Clock) (date next : Int) : Prop where
  after : date < next
  shown : clock.Exists next
  first : ∀ other, date < other → clock.Exists other → next ≤ other

/-- **What is relied on**: the first instant of every date that exists is found and no other, and
those of consecutive dates are the ends of the first one's instants. -/
structure DaysPartition (clock : Clock) : Prop where
  found : ∀ date start, clock.firstInstantOfLocalDate date = some start →
    IsLeast (Set.preimage clock.localDateKey {date}) start
  thrown : ∀ date, clock.firstInstantOfLocalDate date = none ↔ ¬ clock.Exists date
  enclosed : ∀ date next, clock.Exists date → clock.Next date next → ∃ start stop,
    clock.firstInstantOfLocalDate date = some start ∧
    clock.firstInstantOfLocalDate next = some stop ∧ start < stop ∧
    ∀ instant, clock.localDateKey instant = date ↔ start ≤ instant ∧ instant < stop

variable {clock : Clock}

theorem near (clock : Clock) (instant : Int) :
    instant - maxOffsetMs < (clock.localDateKey instant + 1) * dayMs ∧
      clock.localDateKey instant * dayMs ≤ instant + maxOffsetMs := by
  have within := clock.within instant
  simp only [localDateKey, dayMs, hourMs, maxOffsetMs] at *
  omega

theorem lt_of_lt_first (forward : Monotone clock.localDateKey) {date start instant : Int}
    (least : IsLeast (Set.preimage clock.localDateKey {date}) start) (before : instant < start) :
    clock.localDateKey instant < date := by
  refine lt_of_le_of_ne ((forward before.le).trans_eq least.1) fun same => ?_
  exact absurd (least.2 same) (not_le.mpr before)

theorem exists_first {date : Int} (shown : clock.Exists date) :
    ∃ start, IsLeast (Set.preimage clock.localDateKey {date}) start := by
  obtain ⟨instant, isDate⟩ := shown
  have bounded : ∀ other, clock.localDateKey other = date → date * dayMs - maxOffsetMs ≤ other := by
    intro other same
    have isNear := (clock.near other).2
    rw [same] at isNear
    omega
  obtain ⟨start, isStart, least⟩ := Int.exists_least_of_bdd
    ⟨_, bounded⟩ ⟨instant, isDate⟩
  exact ⟨start, isStart, least⟩

/-- **The search finds the first instant**, where dates never go back. -/
theorem firstInstantOfLocalDate_eq (forward : Monotone clock.localDateKey) {date start : Int}
    (least : IsLeast (Set.preimage clock.localDateKey {date}) start) :
    clock.firstInstantOfLocalDate date = some start := by
  have isDate : clock.localDateKey start = date := least.1
  have lower := (clock.near start).2
  have upper := (clock.near (start - 1)).1
  have earlier := lt_of_lt_first forward least (sub_one_lt start)
  have found : bisect (fun instant => decide (clock.localDateKey instant < date)) 29
      (date * dayMs - searchWindowMs) (date * dayMs + searchWindowMs) = start := by
    rw [isDate] at lower
    simp only [dayMs, hourMs, maxOffsetMs, searchWindowMs] at *
    refine bisect_eq (by omega) (by omega) (by omega) (fun instant _ before => ?_)
      fun instant after _ => ?_
    · exact decide_eq_true (lt_of_lt_first forward least before)
    · exact decide_eq_false (not_lt.mpr (isDate.symm.trans_le (forward after)))
  rw [firstInstantOfLocalDate, found, if_pos isDate]

theorem localDateKey_of_found {date start : Int}
    (found : clock.firstInstantOfLocalDate date = some start) : clock.localDateKey start = date := by
  rw [firstInstantOfLocalDate] at found
  split at found
  case isFalse => cases found
  case isTrue same =>
    cases found
    exact same

theorem daysPartition_of_forward (forward : Monotone clock.localDateKey) :
    clock.DaysPartition where
  found := by
    intro date start found
    obtain ⟨first, least⟩ := exists_first ⟨start, localDateKey_of_found found⟩
    rw [firstInstantOfLocalDate_eq forward least] at found
    cases found
    exact least
  thrown := by
    intro date
    constructor
    · rintro thrown shown
      obtain ⟨first, least⟩ := exists_first shown
      rw [firstInstantOfLocalDate_eq forward least] at thrown
      cases thrown
    · intro missing
      cases found : clock.firstInstantOfLocalDate date with
      | none => rfl
      | some start => exact absurd ⟨start, localDateKey_of_found found⟩ missing
  enclosed := by
    intro date next shown isNext
    obtain ⟨start, isStart⟩ := exists_first shown
    obtain ⟨stop, isStop⟩ := exists_first isNext.shown
    have startDate : clock.localDateKey start = date := isStart.1
    have stopDate : clock.localDateKey stop = next := isStop.1
    refine ⟨start, stop, firstInstantOfLocalDate_eq forward isStart,
      firstInstantOfLocalDate_eq forward isStop, ?_, fun instant => ⟨fun same => ?_, ?_⟩⟩
    · by_contra late
      have back := forward (not_lt.mp late)
      rw [startDate, stopDate] at back
      exact absurd isNext.after (not_lt.mpr back)
    · refine ⟨isStart.2 same, ?_⟩
      by_contra late
      have later := forward (not_lt.mp late)
      rw [stopDate, same] at later
      exact absurd isNext.after (not_lt.mpr later)
    · rintro ⟨after, before⟩
      have least := forward after
      have small := lt_of_lt_first forward isStop before
      rw [startDate] at least
      refine le_antisymm (not_lt.mp fun past => ?_) least
      exact absurd (isNext.first _ past ⟨instant, rfl⟩) (not_le.mpr small)

/-! ### Where the days are right, dates never go back -/

theorem exists_next (clock : Clock) (date : Int) : ∃ next, clock.Next date next := by
  obtain ⟨next, ⟨after, shown⟩, first⟩ := Int.exists_least_of_bdd
    (P := fun other => date < other ∧ clock.Exists other)
    ⟨date, fun other isOther => isOther.1.le⟩
    ⟨_, by
      have late := (clock.near ((date + 1) * dayMs + maxOffsetMs + dayMs)).1
      refine ⟨?_, (date + 1) * dayMs + maxOffsetMs + dayMs, rfl⟩
      simp only [dayMs, hourMs, maxOffsetMs] at *
      omega⟩
  exact ⟨next, after, shown, fun other later isShown => first other ⟨later, isShown⟩⟩

theorem DaysPartition.start_lt (days : clock.DaysPartition) {date later start stop : Int}
    (isStart : clock.firstInstantOfLocalDate date = some start)
    (isStop : clock.firstInstantOfLocalDate later = some stop) (less : date < later) :
    start < stop := by
  obtain ⟨gap, isGap⟩ : ∃ gap : Nat, later - date = gap := ⟨(later - date).toNat, by omega⟩
  induction gap using Nat.strong_induction_on generalizing date start with
  | _ gap ih =>
    obtain ⟨next, isNext⟩ := clock.exists_next date
    have shown : clock.Exists date := ⟨start, localDateKey_of_found isStart⟩
    obtain ⟨start', middle, first, isMiddle, increase, -⟩ := days.enclosed date next shown isNext
    rw [isStart, Option.some_inj] at first
    subst first
    rcases eq_or_lt_of_le (isNext.first later less ⟨stop, localDateKey_of_found isStop⟩) with
      same | past
    · rw [same, isStop, Option.some_inj] at isMiddle
      exact isMiddle ▸ increase
    · have after := isNext.after
      exact increase.trans (ih (later - next).toNat (by omega) isMiddle past (by omega))

theorem DaysPartition.exists_start (days : clock.DaysPartition) (instant : Int) :
    ∃ start, clock.firstInstantOfLocalDate (clock.localDateKey instant) = some start := by
  refine Option.ne_none_iff_exists'.mp fun missing => ?_
  exact (days.thrown _).mp missing ⟨instant, rfl⟩

theorem forward_of_daysPartition (days : clock.DaysPartition) : Monotone clock.localDateKey := by
  intro instant other order
  by_contra back
  rw [not_le] at back
  obtain ⟨next, isNext⟩ := clock.exists_next (clock.localDateKey other)
  obtain ⟨start, stop, -, isStop, -, inside⟩ := days.enclosed _ next ⟨other, rfl⟩ isNext
  obtain ⟨first, isFirst⟩ := days.exists_start instant
  have before : other < stop := ((inside other).mp rfl).2
  have after : first ≤ instant := (days.found _ _ isFirst).2 rfl
  have reached : stop ≤ first := by
    rcases eq_or_lt_of_le (isNext.first _ back ⟨instant, rfl⟩) with same | past
    · rw [same, isFirst, Option.some_inj] at isStop
      exact isStop.ge
    · exact (days.start_lt isStop isFirst past).le
  omega

/-- **The days are right exactly if the local date never goes back.** -/
theorem daysPartition_iff (clock : Clock) : clock.DaysPartition ↔ Monotone clock.localDateKey :=
  ⟨forward_of_daysPartition, daysPartition_of_forward⟩

/-! ### A clock that is put back across midnight -/

/-- Newfoundland in autumn 2010: from two and a half hours behind UTC to three and a half, at one
minute past midnight of the 7th of November. -/
def newfoundland : Clock where
  offset instant := if instant < 1289097060000 then -9000000 else -12600000
  within instant := by
    simp only [maxOffsetMs, hourMs]
    split <;> omega

theorem newfoundland_late : newfoundland.firstInstantOfLocalDate 14920 = some 1289100600000 ∧
    newfoundland.localDateKey 1289097000000 = 14920 := by
  decide

theorem not_daysPartition_newfoundland : ¬ newfoundland.DaysPartition := by
  intro days
  obtain ⟨late, early⟩ := newfoundland_late
  exact absurd ((days.found _ _ late).2 early) (by decide)

end Clock

end Toard.Timezone
