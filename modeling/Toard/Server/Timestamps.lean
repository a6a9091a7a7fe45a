/-
**The timestamps of the collector, read by the server.**

The collector prints a time as a text and the server makes a `Date` of it. `PrintsDate` says which
times come through: those of the years 0 to 9999, and those of a year before -99999 that a `Date`
still reaches, because their texts happen to have the form of an extended year.

* **`dateParse_epochMsToIso`**: such a time is read as itself, and any other one is not read at all.
-/

import Toard.Server.Date
import Toard.Shim.Iso

namespace Toard.Server

open Toard.Library Toard.Shim

/-! ### The parts of a text -/

theorem datePart_zeroPad (separator : Char) {last n : Nat} (fits : n ≤ last) (small : last < 100)
    (rest : List Char) :
    datePart separator last (separator :: (zeroPad 2 n ++ rest)) = some (n, rest) := by
  have read := fixedNumber_zeroPad 2 (n := n) (by decide) (by omega) rest
  simp [datePart, after, read, fits]

def isoRest (month day rem : Nat) : List Char :=
  '-' :: (zeroPad 2 month ++ '-' :: (zeroPad 2 day ++ 'T' ::
    (zeroPad 2 (rem / 1000 / 3600) ++ ':' :: (zeroPad 2 (rem / 1000 % 3600 / 60) ++ ':' ::
      (zeroPad 2 (rem / 1000 % 60) ++ '.' :: (zeroPad 3 (rem % 1000) ++ ['Z']))))))

theorem dateTime_isoRest {rem : Nat} (within : rem < 86400000) (rest : List Char) :
    dateTime ('T' :: (zeroPad 2 (rem / 1000 / 3600) ++ ':' :: (zeroPad 2 (rem / 1000 % 3600 / 60) ++
      ':' :: (zeroPad 2 (rem / 1000 % 60) ++ '.' :: (zeroPad 3 (rem % 1000) ++ rest)))))
      = some ((rem : Int), rest) := by
  have hours := datePart_zeroPad 'T'
    (show rem / 1000 / 3600 ≤ 24 by omega) (by decide)
  have minutes := datePart_zeroPad ':'
    (show rem / 1000 % 3600 / 60 ≤ 59 by omega) (by decide)
  have seconds := datePart_zeroPad ':'
    (show rem / 1000 % 60 ≤ 59 by omega) (by decide)
  have millis := fixedNumber_zeroPad 3 (n := rem % 1000) (by decide) (by omega) rest
  have sum : ((rem / 1000 / 3600 * 60 + rem / 1000 % 3600 / 60) * 60 + rem / 1000 % 60) * 1000
      + rem % 1000 = rem := by omega
  simp only [dateTime, hours, minutes, seconds, List.head?_cons, if_true, after, millis,
    Option.bind_eq_bind, Option.bind_some, sum, within.le]

theorem dateFields_isoRest {s : List Char} {year : Int} {month day rem : Nat}
    (isYear : dateYear s = some (year, isoRest month day rem)) (isMonth : 1 ≤ month ∧ month ≤ 12)
    (isDay : 1 ≤ day ∧ day ≤ 31) (within : rem < 86400000) :
    dateFields s = some (dayNumber year month day, (rem : Int), some 0) := by
  have months := datePart_zeroPad '-' isMonth.2 (by decide)
  have days := datePart_zeroPad '-' isDay.2 (by decide)
  have some_ : ¬ (month = 0 ∨ day = 0) := by omega
  have time := dateTime_isoRest within ['Z']
  simp only [dateFields, isYear, isoRest, List.head?_cons, if_true, months, days, some_, if_false,
    reduceCtorEq, time, Option.bind_eq_bind, Option.bind_some, dateOffset]

theorem dateFields_of_digit {s tail : List Char} {year : Int} {c : Char} (isDigit : c.isDigit)
    (isYear : dateYear s = some (year, c :: tail)) : dateFields s = none := by
  have other : ∀ d : Char, d.isDigit = false → c ≠ d := by
    rintro d notDigit rfl
    rw [notDigit] at isDigit
    cases isDigit
  simp [dateFields, isYear, other '-' rfl, dateTime, datePart, after, other 'T' rfl]

/-! ### The year -/

theorem dateYear_of_digits {s : List Char} (starts : ∀ c ∈ s.head?, c.isDigit) :
    dateYear s = (fixedNumber 4 s).map fun read => ((read.1 : Int), read.2) := by
  unfold dateYear
  split
  · exact absurd (starts '+' rfl) (by decide)
  · exact absurd (starts '-' rfl) (by decide)
  · rfl

theorem head_zeroPad (width n : Nat) (rest : List Char) :
    ∀ c ∈ (zeroPad width n ++ rest).head?, c.isDigit := by
  intro c first
  cases digits : zeroPad width n with
  | nil =>
    have none : Nat.toDigits 10 n = [] := (List.append_eq_nil_iff.mp digits).2
    exact absurd none Nat.toDigits_ne_nil
  | cons d tail =>
    rw [digits] at first
    cases first
    have among : c ∈ zeroPad width n := by
      rw [digits]
      exact List.mem_cons_self
    exact isDigit_of_mem_zeroPad among

/-- The years whose printed text has the form of a year of the format. -/
def PrintsYear (year : Int) : Prop :=
  (0 ≤ year ∧ year ≤ 9999) ∨ (-999999 ≤ year ∧ year ≤ -100000)

theorem zeroPad_six {n : Nat} (low : 100000 ≤ n) (high : n ≤ 999999) :
    zeroPad (4 - 1) n = zeroPad 6 n := by
  have long : (Nat.toDigits 10 n).length = 6 := by
    have short := (Nat.length_toDigits_le_iff (b := 10) (n := n) (k := 6)
      (by decide) (by decide)).mpr (by omega)
    have more : ¬ (Nat.toDigits 10 n).length ≤ 5 := fun fewer =>
      absurd ((Nat.length_toDigits_le_iff (by decide) (by decide)).mp fewer) (by omega)
    omega
  rw [zeroPad, zeroPad, long]

theorem dateYear_of_prints {year : Int} (prints : PrintsYear year) (rest : List Char) :
    dateYear (padInt 4 year ++ rest) = some (year, rest) := by
  rcases prints with ⟨low, high⟩ | ⟨low, high⟩
  · rw [padInt, if_neg (by omega), dateYear_of_digits (head_zeroPad _ _ _),
      fixedNumber_zeroPad 4 (by decide) (by omega), Option.map_some, Int.toNat_of_nonneg low]
  · have six : zeroPad (4 - 1) year.natAbs = zeroPad 6 year.natAbs :=
      zeroPad_six (by omega) (by omega)
    have back : -(year.natAbs : Int) = year := by omega
    rw [padInt, if_pos (by omega), six, List.cons_append, dateYear,
      fixedNumber_zeroPad 6 (by decide) (by omega)]
    simp only [back, if_neg (show year.natAbs ≠ 0 by omega)]

theorem dateFields_of_not_prints {year : Int} (other : ¬ PrintsYear year) (rest : List Char) :
    dateFields (padInt 4 year ++ '-' :: rest) = none := by
  unfold PrintsYear at other
  by_cases negative : year < 0
  · rw [padInt, if_pos negative, List.cons_append]
    by_cases long : 10 ^ 6 ≤ year.natAbs
    · have more : 6 < (zeroPad (4 - 1) year.natAbs).length := by
        have many : ¬ (Nat.toDigits 10 year.natAbs).length ≤ 6 := fun fewer =>
          absurd ((Nat.length_toDigits_le_iff (by decide) (by decide)).mp fewer) (by omega)
        rw [zeroPad, List.length_append]
        omega
      obtain ⟨n, c, tail, isDigit, read⟩ := fixedNumber_of_long more
        (fun c => isDigit_of_mem_zeroPad) ('-' :: rest)
      by_cases zero : n = 0
      · simp [dateFields, dateYear, read, zero]
      · exact dateFields_of_digit isDigit (by rw [dateYear, read]; exact if_neg zero)
    · have fewer : (zeroPad (4 - 1) year.natAbs).length < 6 := by
        have few := (Nat.length_toDigits_le_iff (b := 10) (n := year.natAbs) (k := 5)
          (by decide) (by decide)).mpr (by omega)
        rw [zeroPad, List.length_append, List.length_replicate]
        omega
      simp [dateFields, dateYear, fixedNumber_of_short fewer (show Char.isDigit '-' = false from rfl)]
  · rw [padInt, if_neg negative]
    obtain ⟨n, c, tail, isDigit, read⟩ := fixedNumber_of_long
      (length_zeroPad_of_le 4 (n := year.toNat) (by decide) (by omega))
      (fun c => isDigit_of_mem_zeroPad) ('-' :: rest)
    exact dateFields_of_digit isDigit (by
      rw [dateYear_of_digits (head_zeroPad _ _ _), read, Option.map_some])

/-! ### Times -/

/-- The times of the years 0 to 9999, and those that a `Date` reaches before the year -99999. -/
def PrintsDate (ms : Int) : Prop :=
  (-62167219200000 ≤ ms ∧ ms < 253402300800000) ∨ (-maxTime ≤ ms ∧ ms < -3217830796800000)

instance (ms : Int) : Decidable (PrintsDate ms) := by
  unfold PrintsDate
  infer_instance

/-- **A printed time is read as itself**, if the server reads it at all. -/
theorem dateParse_epochMsToIso (toUtc : Int → Int) (ms : Int) :
    dateParse toUtc (epochMsToIso ms) = if PrintsDate ms then some ms else none := by
  obtain ⟨year, month, day, date, isMonth, isDay, isDate⟩ := civilFromDays_spec (ms / 86400000)
  have text : (epochMsToIso ms).toList
      = padInt 4 year ++ isoRest month day (ms % 86400000).toNat := by
    rw [epochMsToIso, String.toList_ofList, date]
    rfl
  have within : (ms % 86400000).toNat < 86400000 := by omega
  have from0 := year_le_iff 0 year isMonth isDay
  have from10000 := year_le_iff 10000 year isMonth isDay
  have fromLong := year_le_iff (-99999) year isMonth isDay
  have fromLongest := year_le_iff (-999999) year isMonth isDay
  rw [isDate] at from0 from10000 fromLong fromLongest
  rw [show dayFromYear 0 = -719528 from rfl] at from0
  rw [show dayFromYear 10000 = 2932897 from rfl] at from10000
  rw [show dayFromYear (-99999) = -37243412 from rfl] at fromLong
  rw [show dayFromYear (-999999) = -365961662 from rfl] at fromLongest
  by_cases prints : PrintsYear year
  · have fields := dateFields_isoRest (dateYear_of_prints prints _) isMonth isDay within
    have whole : ms / 86400000 * 86400000 + ((ms % 86400000).toNat : Int) - 0 * 60000 = ms := by
      omega
    rw [dateParse, text, fields, isDate]
    simp only [Option.bind_eq_bind, Option.bind_some, whole]
    have reached : -maxTime ≤ ms ∧ ms ≤ maxTime ↔ PrintsDate ms := by
      unfold PrintsYear at prints
      unfold PrintsDate maxTime
      omega
    exact if_congr reached rfl rfl
  · have unread := dateFields_of_not_prints prints
      (zeroPad 2 month ++ '-' :: (zeroPad 2 day ++ 'T' ::
        (zeroPad 2 ((ms % 86400000).toNat / 1000 / 3600) ++ ':' ::
          (zeroPad 2 ((ms % 86400000).toNat / 1000 % 3600 / 60) ++ ':' ::
            (zeroPad 2 ((ms % 86400000).toNat / 1000 % 60) ++ '.' ::
              (zeroPad 3 ((ms % 86400000).toNat % 1000) ++ ['Z']))))))
    rw [dateParse, text, isoRest, unread]
    refine (if_neg fun date => prints ?_).symm
    unfold PrintsDate maxTime at date
    unfold PrintsYear
    omega

/-! ### The length of a text -/

theorem length_zeroPad_le {width bound n : Nat} (positive : 0 < bound) (narrow : width ≤ bound)
    (fits : n < 10 ^ bound) : (zeroPad width n).length ≤ bound := by
  have short := (Nat.length_toDigits_le_iff (by decide) positive).mpr fits
  rw [zeroPad, List.length_append, List.length_replicate]
  omega

theorem length_epochMsToIso_le {ms : Int} (prints : PrintsDate ms) :
    (epochMsToIso ms).toList.length ≤ 27 := by
  obtain ⟨year, month, day, date, isMonth, isDay, -⟩ := civilFromDays_spec (ms / 86400000)
  have isText : (epochMsToIso ms).toList
      = padInt 4 year ++ isoRest month day (ms % 86400000).toNat := by
    rw [epochMsToIso, String.toList_ofList, date]
    rfl
  have isYear : PrintsYear year := by
    by_contra other
    have unread : dateParse id (epochMsToIso ms) = none := by
      rw [dateParse, isText, isoRest, dateFields_of_not_prints other]
      rfl
    rw [dateParse_epochMsToIso, if_pos prints] at unread
    cases unread
  have short : (padInt 4 year).length ≤ 7 := by
    unfold PrintsYear at isYear
    rw [padInt]
    split
    · rw [List.length_cons]
      exact Nat.succ_le_succ (length_zeroPad_le (by decide) (by decide) (by omega))
    · have four : (zeroPad 4 year.toNat).length ≤ 4 :=
        length_zeroPad_le (by decide) (by decide) (by omega)
      omega
  have rest : (isoRest month day (ms % 86400000).toNat).length ≤ 20 := by
    have two : ∀ {n}, n < 100 → (zeroPad 2 n).length = 2 := fun fits =>
      length_zeroPad (by decide) fits
    have three : (zeroPad 3 ((ms % 86400000).toNat % 1000)).length = 3 :=
      length_zeroPad (by decide) (Nat.mod_lt _ (by decide))
    simp only [isoRest, List.length_cons, List.length_append, List.length_nil, three,
      two (show month < 100 by omega), two (show day < 100 by omega),
      two (show (ms % 86400000).toNat / 1000 / 3600 < 100 by omega),
      two (show (ms % 86400000).toNat / 1000 % 3600 / 60 < 100 by omega),
      two (show (ms % 86400000).toNat / 1000 % 60 < 100 by omega)]
    omega
  rw [isText, List.length_append]
  omega

end Toard.Server
