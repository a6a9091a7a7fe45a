/-
**The texts that the server prints of a `Date`.**

`toISOString` prints a year of four digits, or a sign and six digits for a year outside 0 to 9999.

* **`dateParse_toISOString`**: a `Date` is read back from its text as itself.
-/

import Toard.Server.Timestamps

namespace Toard.Server

open Toard.Library Toard.Shim

/-- A `Date` that is not invalid, by its time value. -/
structure Date where
  time : Int
  reached : -maxTime ≤ time ∧ time ≤ maxTime
deriving DecidableEq

@[ext]
theorem Date.ext {date date' : Date} (same : date.time = date'.time) : date = date' := by
  cases date
  cases date'
  cases same
  rfl

/-- `new Date(time)`, none for an invalid one. -/
def Date.of? (time : Int) : Option Date :=
  if reached : -maxTime ≤ time ∧ time ≤ maxTime then some ⟨time, reached⟩ else none

@[simp] theorem Date.of?_time (date : Date) : Date.of? date.time = some date := dif_pos date.reached

def isoYear (year : Int) : List Char :=
  if 0 ≤ year ∧ year ≤ 9999 then zeroPad 4 year.toNat
  else (if year < 0 then '-' else '+') :: zeroPad 6 year.natAbs

/-- `toISOString`. -/
def Date.toISOString (date : Date) : String :=
  let (year, month, day) := civilFromDays (date.time / 86400000)
  String.ofList (isoYear year ++ isoRest month day (date.time % 86400000).toNat)

theorem dateYear_isoYear {year : Int} (low : -999999 ≤ year) (high : year ≤ 999999)
    (rest : List Char) : dateYear (isoYear year ++ rest) = some (year, rest) := by
  unfold isoYear
  by_cases short : 0 ≤ year ∧ year ≤ 9999
  · rw [if_pos short, dateYear_of_digits (head_zeroPad _ _ _),
      fixedNumber_zeroPad 4 (by decide) (by omega), Option.map_some, Int.toNat_of_nonneg short.1]
  · rw [if_neg short]
    by_cases negative : year < 0
    · have back : -(year.natAbs : Int) = year := by omega
      rw [if_pos negative, List.cons_append, dateYear, fixedNumber_zeroPad 6 (by decide) (by omega)]
      simp only [back, if_neg (show year.natAbs ≠ 0 by omega)]
    · have back : (year.natAbs : Int) = year := by omega
      rw [if_neg negative, List.cons_append, dateYear,
        fixedNumber_zeroPad 6 (by decide) (by omega), Option.map_some, back]

theorem toList_toISOString (date : Date) : ∃ year month day, (-999999 ≤ year ∧ year ≤ 999999) ∧
    (1 ≤ month ∧ month ≤ 12) ∧ (1 ≤ day ∧ day ≤ 31) ∧
    dayNumber year month day = date.time / 86400000 ∧
    date.toISOString.toList = isoYear year ++ isoRest month day (date.time % 86400000).toNat := by
  obtain ⟨year, month, day, isDate, isMonth, isDay, days⟩ :=
    civilFromDays_spec (date.time / 86400000)
  have reached := date.reached
  unfold maxTime at reached
  have fromLowest := year_le_iff (-999999) year isMonth isDay
  have fromHighest := year_le_iff 1000000 year isMonth isDay
  rw [days] at fromLowest fromHighest
  rw [show dayFromYear (-999999) = -365961662 from rfl] at fromLowest
  rw [show dayFromYear 1000000 = 364522972 from rfl] at fromHighest
  refine ⟨year, month, day, ⟨by omega, by omega⟩, isMonth, isDay, days, ?_⟩
  rw [Date.toISOString, isDate]
  exact String.toList_ofList

/-- **A date is read back from its text.** -/
theorem dateParse_toISOString (toUtc : Int → Int) (date : Date) :
    dateParse toUtc date.toISOString = some date.time := by
  obtain ⟨year, month, day, isYear, isMonth, isDay, days, text⟩ := toList_toISOString date
  have fields := dateFields_isoRest (dateYear_isoYear isYear.1 isYear.2
    (isoRest month day (date.time % 86400000).toNat)) isMonth isDay (by omega)
  have whole : date.time / 86400000 * 86400000 + ((date.time % 86400000).toNat : Int) - 0 * 60000
      = date.time := by omega
  rw [dateParse, text, fields, days]
  simp only [Option.bind_eq_bind, Option.bind_some, whole]
  exact if_pos date.reached

example : (Date.of? 1719800000123).map Date.toISOString = some "2024-07-01T02:13:20.123Z" := by
  decide

example : (Date.of? 253402300800000).map Date.toISOString = some "+010000-01-01T00:00:00.000Z" := by
  decide

end Toard.Server
