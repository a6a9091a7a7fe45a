/-
**The proleptic Gregorian calendar.**

Days are numbered from 1970-01-01, in either direction and without end.

* `dayNumber`: the number of a day from its year, month and day of the month.
* `year_le_iff`: a year is reached exactly from its first day on.
* `date_lt_of_dayNumber_lt`: an earlier day has an earlier date.
-/

import Mathlib.Tactic.IntervalCases

namespace Toard.Library

/-- The number of the first day of a year. -/
def dayFromYear (year : Int) : Int :=
  365 * (year - 1970) + (year - 1969) / 4 - (year - 1901) / 100 + (year - 1601) / 400

def isLeapYear (year : Int) : Bool :=
  year % 4 = 0 ∧ (year % 100 ≠ 0 ∨ year % 400 = 0)

/-- The days of a common year before a month. -/
def commonMonthStart : Nat → Int
  | 1 => 0
  | 2 => 31
  | 3 => 59
  | 4 => 90
  | 5 => 120
  | 6 => 151
  | 7 => 181
  | 8 => 212
  | 9 => 243
  | 10 => 273
  | 11 => 304
  | 12 => 334
  | _ => 0

/-- The days of a year before a month. -/
def monthStart (year : Int) (month : Nat) : Int :=
  commonMonthStart month + if isLeapYear year ∧ 2 < month then 1 else 0

/-- The days of a month. -/
def monthLength (year : Int) (month : Nat) : Nat :=
  if month = 2 then (if isLeapYear year then 29 else 28)
  else if month = 4 ∨ month = 6 ∨ month = 9 ∨ month = 11 then 30 else 31

theorem monthLength_le (year : Int) (month : Nat) : monthLength year month ≤ 31 := by
  unfold monthLength
  split
  · split <;> omega
  · split <;> omega

/-- The number of a day. Days past the end of a month count on into the next one. -/
def dayNumber (year : Int) (month day : Nat) : Int :=
  dayFromYear year + monthStart year month + day - 1

/-- The leap days up to a year. -/
def leapDays (year : Int) : Int := year / 4 - year / 100 + year / 400

theorem leapDays_eq (year : Int) :
    leapDays year = leapDays (year - 1) + if isLeapYear year then 1 else 0 := by
  simp only [leapDays, isLeapYear, decide_eq_true_eq]
  split <;> omega

theorem dayFromYear_eq (year : Int) :
    dayFromYear year = 365 * year + leapDays (year - 1) - 719527 := by
  simp only [dayFromYear, leapDays]
  omega

theorem dayFromYear_succ (year : Int) :
    dayFromYear (year + 1) = dayFromYear year + if isLeapYear year then 366 else 365 := by
  have added := leapDays_eq year
  rw [dayFromYear_eq, dayFromYear_eq, Int.add_sub_cancel, added]
  split <;> omega

theorem dayFromYear_lt_succ (year : Int) : dayFromYear year < dayFromYear (year + 1) := by
  rw [dayFromYear_succ]
  split <;> omega

theorem dayFromYear_mono {first last : Int} (later : first ≤ last) :
    dayFromYear first ≤ dayFromYear last := by
  obtain ⟨count, rfl⟩ := Int.le.dest later
  induction count with
  | zero => simp
  | succ count ih =>
    have step := dayFromYear_lt_succ (first + count)
    have next : first + ((count + 1 : Nat) : Int) = first + count + 1 := by omega
    rw [next]
    exact (ih (by omega)).trans step.le

theorem dayNumber_bounds (year : Int) {month day : Nat} (isMonth : 1 ≤ month ∧ month ≤ 12)
    (isDay : 1 ≤ day ∧ day ≤ 31) :
    dayFromYear year ≤ dayNumber year month day ∧
      dayNumber year month day < dayFromYear (year + 1) := by
  have start : 0 ≤ commonMonthStart month ∧ commonMonthStart month ≤ 334 := by
    obtain ⟨low, high⟩ := isMonth
    interval_cases month <;> decide
  rw [dayFromYear_succ, dayNumber, monthStart]
  cases isLeapYear year with
  | true =>
    simp only [true_and, if_true]
    split <;> omega
  | false =>
    simp only [Bool.false_eq_true, false_and, if_false]
    omega

/-- **A year is reached from its first day on.** -/
theorem year_le_iff (first year : Int) {month day : Nat} (isMonth : 1 ≤ month ∧ month ≤ 12)
    (isDay : 1 ≤ day ∧ day ≤ 31) :
    first ≤ year ↔ dayFromYear first ≤ dayNumber year month day := by
  obtain ⟨low, high⟩ := dayNumber_bounds year isMonth isDay
  constructor
  · exact fun reached => (dayFromYear_mono reached).trans low
  · intro reached
    by_contra before
    have next := dayFromYear_mono (show year + 1 ≤ first by omega)
    omega

/-! ### The order of dates -/

theorem monthStart_succ (year : Int) {month : Nat} (isMonth : 1 ≤ month ∧ month < 12) :
    monthStart year (month + 1) = monthStart year month + monthLength year month := by
  obtain ⟨low, high⟩ := isMonth
  cases leap : isLeapYear year <;> interval_cases month <;>
    simp [monthStart, commonMonthStart, monthLength, leap]

theorem monthStart_le (year : Int) {first last : Nat} (positive : 1 ≤ first) (later : first < last)
    (isMonth : last ≤ 12) :
    monthStart year first + monthLength year first ≤ monthStart year last := by
  induction last, later using Nat.le_induction with
  | base => rw [monthStart_succ year ⟨positive, isMonth⟩]
  | succ last later ih =>
    have step : monthStart year (last + 1) = monthStart year last + monthLength year last :=
      monthStart_succ year ⟨by omega, by omega⟩
    have before := ih (by omega)
    omega

/-- **An earlier day has an earlier date.** -/
theorem date_lt_of_dayNumber_lt {year year' : Int} {month month' day day' : Nat}
    (isMonth : 1 ≤ month ∧ month ≤ 12) (isMonth' : 1 ≤ month' ∧ month' ≤ 12)
    (isDay : 1 ≤ day ∧ day ≤ monthLength year month)
    (isDay' : 1 ≤ day' ∧ day' ≤ monthLength year' month')
    (before : dayNumber year month day < dayNumber year' month' day') :
    year < year' ∨ year = year' ∧ (month < month' ∨ month = month' ∧ day < day') := by
  have short := monthLength_le year month
  have short' := monthLength_le year' month'
  rcases lt_trichotomy year year' with earlier | rfl | later
  · exact .inl earlier
  · refine .inr ⟨rfl, ?_⟩
    rcases lt_trichotomy month month' with earlier | rfl | later
    · exact .inl earlier
    · refine .inr ⟨rfl, ?_⟩
      simp only [dayNumber] at before
      omega
    · have start := monthStart_le year isMonth'.1 later isMonth.2
      simp only [dayNumber] at before
      omega
  · have reached := (year_le_iff year year isMonth ⟨isDay.1, by omega⟩).mp le_rfl
    have unreached := (year_le_iff year year' isMonth' ⟨isDay'.1, by omega⟩).not.mp (by omega)
    omega

end Toard.Library
